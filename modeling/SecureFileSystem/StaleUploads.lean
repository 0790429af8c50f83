import SecureFileSystem.Guarantees
import SecureFileSystem.Wire

/-!
Uploads against the collection of stale ones. A pass selects its files once and
then works through them; an upload that is published in the meantime is still
on its list. Where no upload is published while a pass has it on its list or
one of its deletes on the wire, nothing published is ever collected.
-/

namespace SecureFileSystem.StaleUploads

open Base Database Fleet Session LifeCycle Program Transition RelyGuarantee Files Maintenance
  SecureFileSystem.Configuration Service Interference Stability Conduct Guarantees Wire

def uploadsAndPasses : ServiceLabel → Bool
  | .start (.api _) (.upload _) => true
  | .start .worker (.gcStaleUploads _) => true
  | .start _ _ => false
  | _ => true

/-- The commit that acknowledges the file's upload has been made. -/
def Published (fileId : Uuid) (shared : Shared) : Prop :=
  ∃ entry ∈ shared.log, .setAvailable fileId ∈ entry.2

/-- The next step of a pass, or of a node on its behalf, destroys nothing of the file. -/
structure Spared (platform : Platform) (fileId : Uuid) (config : ServiceConfig) : Prop where
  row : ∀ writes after, Step (service platform) config (.act .worker (.commit writes) ()) after →
    .deleteFile fileId ∉ writes
  objects : ∀ handle flight after, Step (service platform) config (.env (.execute handle)) after →
    config.shared.flights[handle]? = some flight → flight.sender = .worker →
      ∀ shard ∈ config.shared.db.shards, shard.fileId = fileId →
        flight.request ≠ .delete shard.id

/-- Where a pass stands between two of its requests. -/
inductive Point where
  | began (settings : Settings)
  | timed (settings : Settings) (time : Nat)
  | listed (files : List File)
  | located (file : File) (rest : List File) (placed : List (Shard × StorageNode))
  | sent (file : File) (rest : List File) (handles : List Nat)
  | confirmed (file : File) (rest : List File)

namespace Point

def settled (file : File) (rest : List File) (results : List Reply) : Async Unit :=
  if results.all fun reply => succeeded (deleteShard reply) then do
    commit [.deleteFile file.id]
    gcStaleFiles rest
  else gcStaleFiles rest

def code : Point → Async Unit
  | began settings => gcStaleUploads settings
  | timed settings time => do
      let stale ← selectFiles fun _ file =>
        file.status = .uploading && decide (file.uploadedAt + settings.staleUploadSeconds < time)
      gcStaleFiles stale
  | listed files => gcStaleFiles files
  | located file rest placed => do
      let results ← gather (placed.map fun (shard, node) => (node.id, .delete shard.id))
      settled file rest results
  | sent file rest handles => do
      let results ← await handles
      settled file rest results
  | confirmed file rest => do
      commit [.deleteFile file.id]
      gcStaleFiles rest

def rest (point : Point) : Async Outcome := point.code.bind fun _ => .ret (.returned 0)

def ahead : Point → List File
  | began _ | timed _ _ => []
  | listed files => files
  | located file rest _ | sent file rest _ | confirmed file rest => file :: rest

def targets : Point → List (Uuid × Uuid)
  | located file _ placed => placed.map fun row => (row.1.id, file.id)
  | _ => []

end Point

def Selected (fileId : Uuid) (rest : Async Outcome) : Prop :=
  ∃ point : Point, rest = point.rest ∧ fileId ∈ point.ahead.map (·.id)

/-- No pass has the file on its list, nor a delete for its shards on the wire. -/
def Unselected (fileId : Uuid) (config : ServiceConfig) : Prop :=
  (∀ job rest, config.threads .worker = .running job rest → ¬ Selected fileId rest) ∧
  ∀ flight ∈ config.shared.flights, flight.sender = .worker → flight.state = .pending →
    ∀ shard ∈ config.shared.db.shards, shard.fileId = fileId → flight.request ≠ .delete shard.id

/-- An upload is published only while no pass is after it. -/
def publishesUnselected (config : ServiceConfig) : ServiceLabel → Prop
  | .act _ (.commit writes) _ => ∀ fileId, .setAvailable fileId ∈ writes → Unselected fileId config
  | _ => True

theorem targets_ahead (point : Point) :
    ∀ target ∈ point.targets, ∃ file ∈ point.ahead, file.id = target.2 := by
  intro target member
  cases point with
  | located file rest placed =>
      obtain ⟨row, -, rfl⟩ := List.mem_map.mp member
      exact ⟨file, List.mem_cons_self, rfl⟩
  | _ => cases member

theorem point_commits {point : Point} {writes : List Write}
    {next : Res (.commit writes) → Async Outcome} (at_op : point.rest = .op (.commit writes) next) :
    ∃ file ∈ point.ahead, writes = [.deleteFile file.id] := by
  cases point with
  | confirmed file rest =>
      change Prog.op (Op.commit [.deleteFile file.id]) (fun _ => (Point.listed rest).rest) = _
        at at_op
      cases at_op
      exact ⟨file, List.mem_cons_self, rfl⟩
  | listed files =>
      cases files with
      | nil => cases at_op
      | cons file rest => cases at_op
  | _ => cases at_op

/-- What one request of a pass can do: it goes on with files it had on its list
or finds uploading now, and sends deletes for its targets only. -/
structure Advances (before after : Shared) (request : Op) (point next : Point) : Prop where
  ahead : ∀ file ∈ next.ahead, file ∈ point.ahead ∨
    (after = before ∧ file ∈ before.db.files ∧ file.status = .uploading)
  targets : ∀ target ∈ next.targets, after = before ∧ Belongs target.1 target.2 before
  sends : ∀ one ∈ sends request, ∀ shardId, one.2 = .delete shardId →
    shardId ∈ point.targets.map Prod.fst

theorem point_advances {point : Point} {before after : Shared} {request : Op}
    {next : Res request → Async Outcome} {answer : Res request} (wf : WellFormed before)
    (at_op : point.rest = .op request next)
    (done : exec .worker before request answer = some after) :
    ∃ following : Point, next answer = following.rest ∧
      Advances before after request point following := by
  -- One case for each statement of the loop, in the order in which it comes to them.
  cases point with
  | began settings =>
      change Prog.op Op.now (fun time => (Point.timed settings time).rest) = _ at at_op
      cases at_op
      exact ⟨.timed settings answer, rfl, nofun, nofun, nofun⟩
  | timed settings time =>
      change Prog.op (Op.selectFiles fun _ file => file.status = .uploading &&
        decide (file.uploadedAt + settings.staleUploadSeconds < time))
        (fun files => (Point.listed files).rest) = _ at at_op
      cases at_op
      obtain ⟨order, same⟩ := Option.ite_none_right_eq_some.mp done
      cases same
      refine ⟨.listed answer, rfl, fun file member => Or.inr ⟨rfl, ?_⟩, nofun, nofun⟩
      obtain ⟨present, stale⟩ := List.mem_filter.mp (order.mem_iff.mp member)
      rw [Bool.and_eq_true, decide_eq_true_eq] at stale
      exact ⟨present, stale.1⟩
  | listed files =>
      cases files with
      | nil => cases at_op
      | cons file rest =>
          change Prog.op (Op.selectPlaced fun _ shard _ => shard.fileId = file.id)
            (fun placed => (Point.located file rest placed).rest) = _ at at_op
          cases at_op
          obtain ⟨order, same⟩ := Option.ite_none_right_eq_some.mp done
          cases same
          refine ⟨.located file rest answer, rfl, fun other member => Or.inl member, ?_, nofun⟩
          intro target member
          obtain ⟨row, selected, rfl⟩ := List.mem_map.mp member
          exact ⟨rfl, placed_belongs wf order row selected⟩
  | located file rest placed =>
      change Prog.op (Op.send (placed.map fun (shard, node) => (node.id, .delete shard.id)))
        (fun handles => (Point.sent file rest handles).rest) = _ at at_op
      cases at_op
      refine ⟨.sent file rest answer, rfl, fun other member => Or.inl member, nofun, ?_⟩
      intro one member shardId deletes
      obtain ⟨row, selected, rfl⟩ := List.mem_map.mp member
      cases deletes
      exact List.mem_map.mpr ⟨(row.1.id, file.id), List.mem_map_of_mem selected, rfl⟩
  | sent file rest handles =>
      change Prog.op (Op.await handles)
        (fun results => (Point.settled file rest results).bind fun _ => .ret (Outcome.returned 0)) =
          _ at at_op
      cases at_op
      -- A node that has not confirmed keeps the row for the next pass.
      by_cases all : (answer.all fun reply => succeeded (deleteShard reply)) = true
      · refine ⟨.confirmed file rest, ?_, fun other member => Or.inl member, nofun, nofun⟩
        simp only [Point.settled, all, if_true]
        rfl
      · refine ⟨.listed rest, ?_, fun other member => Or.inl (List.mem_cons_of_mem _ member), nofun,
          nofun⟩
        simp only [Point.settled, all, Bool.false_eq_true, if_false]
        rfl
  | confirmed file rest =>
      change Prog.op (Op.commit [.deleteFile file.id]) (fun _ => (Point.listed rest).rest) = _
        at at_op
      cases at_op
      exact ⟨.listed rest, rfl, fun other member => Or.inl (List.mem_cons_of_mem _ member), nofun,
        nofun⟩

/-- Rows named by this id are not those of a published file. -/
def Aimed (id : Uuid) (shared : Shared) : Prop :=
  id ∈ used shared ∧ ∀ row ∈ shared.db.shards, row.id = id → ¬ Published row.fileId shared

structure Steady (point : Point) (shared : Shared) : Prop where
  ahead : ∀ file ∈ point.ahead, ¬ Published file.id shared
  targets : ∀ target ∈ point.targets, Belongs target.1 target.2 shared

/-- Published files are on no list and no delete of a pass is after them. -/
structure Course (config : ServiceConfig) : Prop where
  standing : ∀ fileId, Published fileId config.shared →
    OfFile fileId (·.status ≠ .uploading) config.shared
  worker : ∀ job rest, config.threads .worker = .running job rest →
    ∃ point : Point, rest = point.rest ∧ Steady point config.shared
  aimed : ∀ flight ∈ config.shared.flights, flight.sender = .worker → flight.state = .pending →
    ∀ shardId, flight.request = .delete shardId → Aimed shardId config.shared

theorem steady_aimed {point : Point} {shared : Shared} (steady : Steady point shared)
    {shardId : Uuid} (listed : shardId ∈ point.targets.map Prod.fst) : Aimed shardId shared := by
  obtain ⟨target, member, rfl⟩ := List.mem_map.mp listed
  obtain ⟨known, rows⟩ := steady.targets target member
  obtain ⟨file, inside, same⟩ := targets_ahead point target member
  refine ⟨known, fun row present named => ?_⟩
  rw [rows row present named, ← same]
  exact steady.ahead file inside

section Step
variable {platform : Platform} {clock : Nat} {labels : List ServiceLabel}
  {before after : ServiceConfig} {label : ServiceLabel}

/-- Only the commit that publishes a file makes it published. -/
theorem step_published (taken : Step (service platform) before label after) (fileId : Uuid)
    (published : Published fileId after.shared) :
    Published fileId before.shared ∨
      ∃ thread writes, label = .act thread (.commit writes) () ∧ .setAvailable fileId ∈ writes := by
  cases taken with
  | start _ _ => exact Or.inl published
  | fail _ => exact Or.inl published
  | finish _ => exact Or.inl published
  | env done =>
      obtain ⟨entry, member, publishes⟩ := published
      exact Or.inl ⟨entry, (environment_undisturbed _ done).log ▸ member, publishes⟩
  | @act thread job request next answer shared at_op done =>
      obtain ⟨entry, member, publishes⟩ := published
      change entry ∈ shared.log at member
      rw [exec_log done] at member
      rcases List.mem_append.mp member with old | new
      · exact Or.inl ⟨entry, old, publishes⟩
      · obtain ⟨writes, committed, rfl⟩ := List.mem_map.mp new
        cases request with
        | commit committed' =>
            obtain rfl := List.mem_singleton.mp committed
            exact Or.inr ⟨thread, writes, rfl, publishes⟩
        | _ => cases committed

theorem publish_standing (run : Run (Step (service platform)) (deployed clock) labels before)
    {thread : Tid} {writes : List Write}
    (taken : Step (service platform) before (.act thread (.commit writes) ()) after)
    {fileId : Uuid} (publishes : .setAvailable fileId ∈ writes) :
    OfFile fileId (·.status ≠ .uploading) after.shared := by
  obtain ⟨transaction, db, rfl, enabled, done, recorded⟩ := service_commit run taken
  cases transaction with
  | publish other event =>
      obtain rfl : fileId = other := by simpa [Transaction.writes] using publishes
      have life : Life thread before.shared after.shared := .commit _ db enabled done recorded
      refine ⟨used_mono life enabled.2.1, fun file member named => ?_⟩
      have files : db.files = File.update fileId publishFile before.shared.db.files :=
        congrArg Catalog.files (Ledger.enabled_effect enabled done).1
      rw [recorded] at member
      change file ∈ db.files at member
      rw [files] at member
      obtain ⟨old, -, rfl⟩ := List.mem_map.mp member
      by_cases hit : old.id = fileId
      · simp [hit, publishFile]
      · simp [hit] at named
  | observe nodes => exact (enabled _ publishes).elim
  | _ => simp [Transaction.writes] at publishes

/-- What was on no list before a step is not collected after it. -/
theorem aimed_kept {thread : Tid} {before after : Shared} (life : Life thread before after)
    {id : Uuid} (aimed : Aimed id before)
    (fresh : ∀ row ∈ before.db.shards, row.id = id → Published row.fileId after →
      Published row.fileId before) : Aimed id after := by
  refine ⟨used_mono life aimed.1, fun row member named published => ?_⟩
  cases life_shard life row member with
  | same present => exact aimed.2 row present named (fresh row present named published)
  | repointed old new node present worker unused change =>
      subst change
      have here : new = id := named
      exact unused (here ▸ aimed.1)
  | uploaded unused _ => exact unused (named ▸ aimed.1)

theorem published_guarded (taken : Step (service platform) before label after)
    (guard : publishesUnselected before label) (fileId : Uuid)
    (published : Published fileId after.shared) :
    Published fileId before.shared ∨ Unselected fileId before := by
  rcases step_published taken fileId published with old | ⟨thread, writes, rfl, publishes⟩
  · exact Or.inl old
  · exact Or.inr (guard fileId publishes)

theorem steady_step (run : Run (Step (service platform)) (deployed clock) labels before)
    (taken : Step (service platform) before label after) (guard : publishesUnselected before label)
    {job : Job} {point : Point} (at_rest : before.threads .worker = .running job point.rest)
    (steady : Steady point before.shared) : Steady point after.shared := by
  obtain ⟨mover, life⟩ := service_life run taken
  constructor
  case ahead =>
    intro file inside published
    rcases published_guarded taken guard _ published with old | none
    · exact steady.ahead file inside old
    · exact none.1 job _ at_rest ⟨point, rfl, List.mem_map_of_mem inside⟩
  case targets => exact fun target inside => life_belongs life (steady.targets target inside)

theorem aimed_step (run : Run (Step (service platform)) (deployed clock) labels before)
    (course : Course before) (taken : Step (service platform) before label after)
    (guard : publishesUnselected before label) :
    ∀ flight ∈ before.shared.flights, flight.sender = .worker → flight.state = .pending →
      ∀ shardId, flight.request = .delete shardId → Aimed shardId after.shared := by
  obtain ⟨mover, life⟩ := service_life run taken
  intro flight member sender state shardId request
  refine aimed_kept life (course.aimed flight member sender state shardId request) ?_
  intro row present named published
  rcases published_guarded taken guard _ published with old | none
  · exact old
  · exact absurd (named ▸ request) (none.2 flight member sender state row present rfl)

theorem standing_step (run : Run (Step (service platform)) (deployed clock) labels before)
    (course : Course before) (taken : Step (service platform) before label after) (fileId : Uuid)
    (published : Published fileId after.shared) :
    OfFile fileId (·.status ≠ .uploading) after.shared := by
  obtain ⟨mover, life⟩ := service_life run taken
  rcases step_published taken fileId published with old | ⟨thread, writes, rfl, publishes⟩
  · refine life_ofFile life (course.standing fileId old) ?_ ?_
    · exact fun _ _ _ _ => nofun
    · exact fun _ _ _ _ _ => nofun
  · exact publish_standing run taken publishes

theorem worker_step (run : Run (Step (service platform)) (deployed clock) labels before)
    (course : Course before) (taken : Step (service platform) before label after)
    (only : uploadsAndPasses label = true) (guard : publishesUnselected before label) {job : Job}
    {rest : Async Outcome} (running : after.threads .worker = .running job rest) :
    ∃ point : Point, rest = point.rest ∧ Steady point after.shared := by
  -- Where the worker stands only its own step moves it.
  have kept : before.threads .worker = .running job rest →
      ∃ point : Point, rest = point.rest ∧ Steady point after.shared := by
    intro same
    obtain ⟨point, rfl, held⟩ := course.worker job rest same
    exact ⟨point, rfl, steady_step run taken guard same held⟩
  have steady : ∀ job point, before.threads .worker = .running job point.rest →
      Steady point before.shared → Steady point after.shared :=
    fun job point at_rest held => steady_step run taken guard at_rest held
  cases taken with
  | @start thread started idle may =>
      rw [threads_set] at running
      split at running
      · rename_i here
        subst here
        cases running
        cases job with
        | gcStaleUploads settings => exact ⟨.began settings, rfl, nofun, nofun⟩
        | _ => cases only
      · exact kept running
  | @act thread job' request next answer shared at_op done =>
      change ((before.set thread (.running job' (next answer))).threads .worker) = _ at running
      rw [threads_set] at running
      split at running
      · rename_i here
        subst here
        cases running
        obtain ⟨point, at_rest, held⟩ := course.worker job _ at_op
        obtain ⟨following, same, advances⟩ :=
          point_advances (service_safe run).inv at_rest.symm done
        refine ⟨following, same, fun file inside published => ?_, fun target inside => ?_⟩
        · rcases advances.ahead file inside with listed | ⟨rfl, present, uploading⟩
          · exact (steady job point (at_rest ▸ at_op) held).ahead file listed published
          · exact (course.standing file.id published).2 file present rfl uploading
        · obtain ⟨rfl, belongs⟩ := advances.targets target inside
          exact belongs
      · exact kept running
  | @fail thread _ _ _ at_op =>
      rw [threads_set] at running
      split at running
      · cases running
      · exact kept running
  | @finish thread _ _ at_ret =>
      rw [threads_set] at running
      split at running
      · cases running
      · exact kept running
  | env done => exact kept running

theorem delete_step (run : Run (Step (service platform)) (deployed clock) labels before)
    (course : Course before) (taken : Step (service platform) before label after)
    (guard : publishesUnselected before label) :
    ∀ flight ∈ after.shared.flights, flight.sender = .worker → flight.state = .pending →
      ∀ shardId, flight.request = .delete shardId → Aimed shardId after.shared := by
  have aimed := aimed_step run course taken guard
  have steady : ∀ job point, before.threads .worker = .running job point.rest →
      Steady point before.shared → Steady point after.shared :=
    fun job point at_rest held => steady_step run taken guard at_rest held
  intro flight member sender state shardId request
  obtain ⟨index, found⟩ := List.getElem?_of_mem member
  have follows : ∀ {old : Flight Tid}, before.shared.flights[index]? = some old →
      sent flight = sent old → old.state = .pending → Aimed shardId after.shared := by
    intro old inside same waiting
    simp only [sent, Prod.mk.injEq] at same
    exact aimed old (List.mem_of_getElem? inside) (same.1.symm.trans sender) waiting shardId
      (same.2.2.symm.trans request)
  cases taken with
  | start _ _ => exact follows found rfl state
  | fail _ => exact follows found rfl state
  | finish _ => exact follows found rfl state
  | env done =>
      obtain ⟨old, inside, same, -, states⟩ := environment_flight _ done found
      exact follows inside same (states.elim (fun equal => equal ▸ state) id)
  | @act thread job asked next answer shared at_op done =>
      rcases exec_flight done found with ⟨old, inside, same, states, -⟩ | ⟨-, one, launched, rfl⟩
      · exact follows inside same (states ▸ state)
      · obtain rfl : thread = Tid.worker := sender
        obtain ⟨point, at_rest, held⟩ := course.worker job _ at_op
        obtain ⟨following, -, advances⟩ :=
          point_advances (service_safe run).inv at_rest.symm done
        exact steady_aimed (steady job point (at_rest ▸ at_op) held)
          (advances.sends _ launched shardId request)

theorem course_step (run : Run (Step (service platform)) (deployed clock) labels before)
    (course : Course before) (taken : Step (service platform) before label after)
    (only : uploadsAndPasses label = true) (guard : publishesUnselected before label) :
    Course after where
  standing := standing_step run course taken
  worker _ _ running := worker_step run course taken only guard running
  aimed := delete_step run course taken guard

end Step

/-- The steps under which collection is right: uploads and passes, and no upload
published while a pass is after it. -/
def orderly (config : ServiceConfig) (label : ServiceLabel) : Prop :=
  uploadsAndPasses label = true ∧ publishesUnselected config label

theorem run_course {platform : Platform} {clock : Nat} {labels : List ServiceLabel}
    {config : ServiceConfig}
    (run : Run (Guarded orderly (Step (service platform))) (deployed clock) labels config) :
    Course config := by
  induction run with
  | refl => exact ⟨fun _ none => (by obtain ⟨_, none, _⟩ := none; cases none), nofun, nofun⟩
  | next ran taken ih => exact course_step (guarded_run ran) ih taken.1 taken.2.1 taken.2.2

theorem published_spared (platform : Platform) (clock : Nat) (labels : List ServiceLabel)
    (config : ServiceConfig)
    (run : Run (Guarded orderly (Step (service platform))) (deployed clock) labels config)
    (fileId : Uuid) (acknowledged : Published fileId config.shared) :
    Spared platform fileId config := by
  have course := run_course run
  refine ⟨fun writes after taken deletes => ?_, ?_⟩
  · cases taken with
    | act at_op done =>
        obtain ⟨point, at_rest, steady⟩ := course.worker _ _ at_op
        obtain ⟨file, inside, rfl⟩ := point_commits at_rest.symm
        obtain rfl : fileId = file.id := by simpa using deletes
        exact steady.ahead file inside acknowledged
  · intro handle flight after taken found sender shard present owner request
    cases taken with
    | env done =>
        obtain ⟨pending, waiting, -⟩ := Option.map_eq_some_iff.mp done
        obtain ⟨same, state⟩ := pending_found waiting
        obtain rfl : pending = flight := Option.some.inj (same.symm.trans found)
        obtain ⟨-, rows⟩ :=
          course.aimed pending (List.mem_of_getElem? found) sender state shard.id request
        exact rows shard present rfl (owner ▸ acknowledged)

def beforePasses (config : ServiceConfig) : Bool :=
  (match config.threads .worker with
    | .fresh => true
    | _ => false) &&
  config.shared.flights.all (·.sender ≠ .worker)

theorem beforePasses_unselected {config : ServiceConfig} (before : beforePasses config = true)
    (fileId : Uuid) : Unselected fileId config := by
  rw [beforePasses, Bool.and_eq_true] at before
  refine ⟨fun job rest running => ?_, fun flight member sender => ?_⟩
  · rw [running] at before
    exact absurd before.1 (by simp)
  · exact absurd sender (of_decide_eq_true (List.all_eq_true.mp before.2 flight member))

def commitsFirst (config : ServiceConfig) (label : ServiceLabel) : Bool :=
  uploadsAndPasses label &&
  match label with
  | .act _ (.commit _) _ => beforePasses config
  | _ => true

theorem commitsFirst_orderly (config : ServiceConfig) (label : ServiceLabel)
    (first : commitsFirst config label = true) : orderly config label := by
  unfold commitsFirst at first
  rw [Bool.and_eq_true] at first
  refine ⟨first.1, ?_⟩
  cases label with
  | act thread request answer =>
      cases request with
      | commit writes => exact fun fileId _ => beforePasses_unselected first.2 fileId
      | _ => trivial
  | _ => trivial

/-- A pass over an upload published long ago. -/
theorem published_spared_small : ∃ labels config,
    Run (Guarded orderly (Step (service plain))) (deployed 0) labels config ∧
    Published 1 config.shared ∧ Spared plain 1 config := by
  obtain ⟨labels, config, run, passed⟩ := drive_guarded (service plain) commitsFirst (deployed 0)
    (smallUploaded ++ [.env (.tick 100), .start .worker (.gcStaleUploads smallSettings)] ++
      prompts .worker 2)
    (fun _ config => config.shared.log.any fun entry => decide (.setAvailable 1 ∈ entry.2))
    (by decide +kernel)
  obtain ⟨entry, logged, publishes⟩ := List.any_eq_true.mp passed
  have acknowledged : Published 1 config.shared := ⟨entry, logged, of_decide_eq_true publishes⟩
  have orderly_run : Run (Guarded orderly (Step (service plain))) (deployed 0) labels config :=
    run_mono (fun _ _ _ taken => ⟨taken.1, commitsFirst_orderly _ _ taken.2⟩) run
  exact ⟨labels, config, orderly_run, acknowledged,
    published_spared plain 0 labels config orderly_run 1 acknowledged⟩

/-- A pass selects an upload that is then published, and goes on to delete it. -/
def collectedUpload : List ServiceMove :=
  smallStart ++ [.env (.tick 100), .start .worker (.gcStaleUploads smallSettings)] ++
  prompts .worker 2 ++ delivers [0, 1] ++ prompts (.api 0) 2 ++ prompts .worker 2 ++
  delivers [2, 3] ++ prompts .worker 1

def removes (config : ServiceConfig) : Bool :=
  (match config.threads .worker with
    | .running _ (.op (.commit writes) _) => decide (writes = [.deleteFile 1])
    | _ => false) &&
  config.shared.log.any fun entry => decide (.setAvailable 1 ∈ entry.2)

theorem published_collected : ∃ labels config fileId,
    Run (Guarded (fun _ label => uploadsAndPasses label = true) (Step (service plain)))
      (deployed 0) labels config ∧
    Published fileId config.shared ∧ ¬ Spared plain fileId config := by
  obtain ⟨labels, config, run, passed⟩ := drive_guarded (service plain)
    (fun _ label => uploadsAndPasses label) (deployed 0) collectedUpload
    (fun _ config => removes config) (by decide +kernel)
  rw [removes, Bool.and_eq_true] at passed
  obtain ⟨entry, logged, publishes⟩ := List.any_eq_true.mp passed.2
  refine ⟨labels, config, 1, run, ⟨entry, logged, of_decide_eq_true publishes⟩, fun spared => ?_⟩
  have waiting := passed.1
  split at waiting
  · rename_i job writes next at_op
    obtain rfl := of_decide_eq_true waiting
    have done : exec .worker config.shared (.commit [.deleteFile 1]) () = some _ := rfl
    exact spared.row _ _ (Step.act at_op done) (by simp)
  · cases waiting

end SecureFileSystem.StaleUploads
