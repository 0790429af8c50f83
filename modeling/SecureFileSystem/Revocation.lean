import SecureFileSystem.Guarantees

/-!
Revocation. Once a delete has committed, no request that reads the file from
then on is served it, its row stays a tombstone, and every link ever issued
carries an older version.
-/

namespace SecureFileSystem.Revocation

open Base Database Session LifeCycle Program Transition RelyGuarantee Files Uuid SecureFileSystem.Configuration
  Signing TextCodec Routers Service Interference Stability Conduct Handlers Guarantees

/-- How a download is turned away. -/
inductive Refused (platform : Platform) (request : DownloadRequest) : Response → Prop
  | notFound : Refused platform request fileNotFound
  | invalid : Refused platform request invalidLink
  | limited (exceeded : request.rateAllowed = false) : Refused platform request rateLimited
  | unconfigured (none : request.settings.signingKeys platform.unicode = none) :
      Refused platform request internalError

def Unread (thread : Tid) (labels : List ServiceLabel) : Prop :=
  ∀ condition rows, Label.act thread (.selectFiles condition) rows ∉ labels

section Refusal
variable {platform : Platform} {post : Tid → Job → Outcome → Shared → Prop} {thread : Tid}
  {state : Shared} {request : DownloadRequest} {fileId : Uuid}

theorem deny_refused (refusal : Response) (refused : Refused platform request refusal) :
    Keeps platform post thread (fun response _ => Refused platform request response)
      (deny platform request none refusal) state :=
  safe_mono (deny_keeps request none refusal) fun _ _ _ denied => denied.1 ▸ refused

theorem serveFile_refused (claims : LinkClaims) (start : Gone claims.fileId state) :
    Keeps platform post thread (fun response _ => Refused platform request response)
      (serveFile platform request claims) state := by
  refine keeps_head (gone_stable _) start fun found later wf gone known => ?_
  cases found with
  | none => exact deny_refused fileNotFound .notFound
  | some file =>
      obtain ⟨present, named⟩ := known file rfl
      have deleted := gone.2 file present (by simpa using named)
      simp only [deleted, ne_eq, reduceCtorEq, not_false_eq_true, if_true]
      exact safe_mono (deny_keeps request (some file) fileNotFound)
        fun _ _ _ denied => denied.1 ▸ .notFound

theorem checkLink_refused (known : uuidOf platform.unicode request.fileId = some fileId)
    (start : Gone fileId state) (keys : Keys) (time : Nat) :
    Keeps platform post thread (fun response _ => Refused platform request response)
      (checkLink platform request keys time) state := by
  unfold checkLink
  split
  · exact deny_refused invalidLink .invalid
  · rename_i claims answered
    obtain ⟨_, _, _, _, -, -, -, -, accepted⟩ := accepted_of_verify answered
    have same : claims.fileId = fileId := Option.some.inj (accepted.parsed.symm.trans known)
    exact serveFile_refused claims (same ▸ start)

theorem downloadFile_refused (known : uuidOf platform.unicode request.fileId = some fileId)
    (start : Gone fileId state) :
    Keeps platform post thread (fun response _ => Refused platform request response)
      (downloadFile platform request) state := by
  unfold downloadFile
  split
  · rename_i exceeded
    exact keeps_ret trivial_stable trivial fun _ _ _ => .limited exceeded
  split
  · rename_i missing
    exact keeps_ret trivial_stable trivial fun _ _ _ => .unconfigured missing
  · rename_i keys _
    exact keeps_quiet (.now) (gone_stable fileId) trivial start
      fun _ time after _ _ _ _ gone => checkLink_refused known gone keys time

/-- A well-formed file id is looked up before anything else is answered. -/
theorem checkLink_reads (known : uuidOf platform.unicode request.fileId = some fileId)
    (keys : Keys) (time : Nat) : ∃ condition next,
      checkLink platform request keys time = .op (.selectFiles condition) next := by
  unfold checkLink
  split
  · simp only [deny, known, Option.any_none, Bool.false_eq_true, if_false]
    exact ⟨_, _, rfl⟩
  · exact ⟨_, _, rfl⟩

def Waiting (platform : Platform) (request : DownloadRequest) (rest : Async Outcome) : Prop :=
  rest = program platform (.download request) ∨
    ∃ keys time, rest = (checkLink platform request keys time).bind fun response =>
      .ret (.response response)

theorem waiting_step (known : uuidOf platform.unicode request.fileId = some fileId)
    {asked : Op} {next : Res asked → Async Outcome}
    (waiting : Waiting platform request (.op asked next)) :
    (∃ condition, asked = .selectFiles condition) ∨
      ∀ answer, Waiting platform request (next answer) := by
  rcases waiting with begins | ⟨keys, time, same⟩
  · right
    change .op asked next = (downloadFile platform request).bind _ at begins
    unfold downloadFile at begins
    split at begins
    · cases begins
    split at begins
    · cases begins
    · rename_i keys _
      cases begins
      exact fun time => Or.inr ⟨keys, time, rfl⟩
  · left
    obtain ⟨condition, after, reads⟩ := checkLink_reads known keys time
    rw [reads] at same
    cases same
    exact ⟨condition, rfl⟩

theorem unread_waiting {clock : Nat} {labels : List ServiceLabel} {config : ServiceConfig}
    (run : Run (Step (service platform)) (deployed clock) labels config)
    (known : uuidOf platform.unicode request.fileId = some fileId)
    (unread : Unread thread labels) {rest : Async Outcome}
    (running : config.threads thread = .running (.download request) rest) :
    Waiting platform request rest := by
  induction run generalizing rest with
  | refl => cases running
  | @next middle after labels label ran taken ih =>
      have before : ∀ rest, middle.threads thread = .running (.download request) rest →
          Waiting platform request rest :=
        fun rest earlier => ih (fun condition rows member =>
          unread condition rows (List.mem_append_left _ member)) earlier
      cases taken with
      | @start moving job idle may =>
          rw [threads_set] at running
          split at running
          · cases running
            exact Or.inl rfl
          · exact before rest running
      | @act moving job asked next answer shared at_op done =>
          simp only [threads_set] at running
          split at running
          · rename_i mine
            subst mine
            cases running
            rcases waiting_step known (before _ at_op) with ⟨condition, rfl⟩ | further
            · exact absurd (List.mem_append_right _ List.mem_cons_self) (unread condition answer)
            · exact further answer
          · exact before rest running
      | @fail moving _ _ _ at_op =>
          rw [threads_set] at running
          split at running
          · cases running
          · exact before rest running
      | @finish moving _ _ at_ret =>
          rw [threads_set] at running
          split at running
          · cases running
          · exact before rest running
      | env done => exact before rest running

theorem waiting_refused (known : uuidOf platform.unicode request.fileId = some fileId)
    (start : Gone fileId state) {rest : Async Outcome} (waiting : Waiting platform request rest) :
    Keeps platform post thread
      (fun out _ => ∀ response, out = Outcome.response response → Refused platform request response)
      rest state := by
  have answered : ∀ {prog : Async Response}, Keeps platform post thread
      (fun response _ => Refused platform request response) prog state →
      Keeps platform post thread
        (fun out _ => ∀ response, out = Outcome.response response → Refused platform request response)
        (prog.bind fun response => .ret (.response response)) state := by
    intro prog safe
    refine safe_map (safe_mono safe fun out _ _ refused => ?_)
    rintro _ ⟨rfl⟩
    exact refused
  rcases waiting with rfl | ⟨keys, time, rfl⟩
  · exact answered (downloadFile_refused known start)
  · exact answered (checkLink_refused known start keys time)

end Refusal

section Runs
variable {platform : Platform} {clock : Nat} {first second : List ServiceLabel}
  {before after last : ServiceConfig} {deleter : Tid} {writes : List Write} {fileId : Uuid}
  {deletedAt linkVersion : Nat}

theorem delete_gone (run : Run (Step (service platform)) (deployed clock) first before)
    (deleted : Step (service platform) before (.act deleter (.commit writes) ()) after)
    (revokes : .setDeleted fileId deletedAt linkVersion ∈ writes) : Gone fileId after.shared := by
  obtain ⟨transaction, db, same, enabled, done, recorded⟩ := service_commit run deleted
  rw [same] at revokes
  cases transaction with
  | revoke other time version event =>
      obtain ⟨rfl, rfl, rfl⟩ : fileId = other ∧ deletedAt = time ∧ linkVersion = version := by
        simpa [Transaction.writes] using revokes
      have present : fileId ∈ before.shared.db.files.map (·.id) :=
        (Ledger.enabled_effect enabled done).2
      obtain ⟨file, inside, named⟩ := List.mem_map.mp present
      have known := (service_safe run).inv.files_used file inside
      rw [named] at known
      have life : Life deleter before.shared (LifeCycle.recorded before.shared deleter _ db) :=
        .commit _ db enabled done rfl
      rw [recorded]
      exact revoked_gone known life done
  | observe nodes => exact (enabled _ revokes).elim
  | _ => simp [Transaction.writes] at revokes

/-- What a download of the revoked file promises from here on: its answer if it
had not read the file by now. -/
def refusal (platform : Platform) (fileId : Uuid) (thread : Tid) (other : Tid) :
    Job → Outcome → Shared → Prop
  | .download request, .response response, _ => other = thread →
      uuidOf platform.unicode request.fileId = some fileId → Refused platform request response
  | _, _, _ => True

/-- The contract of the service after a delete: every step starts with the
tombstone in place. -/
def afterDelete (platform : Platform) (fileId : Uuid) (thread : Tid) :
    Contract Shared Tid Job Event Op Res Outcome :=
  { contract (refusal platform fileId thread) with allowed := fun state _ => Gone fileId state }

theorem afterDelete_of_keeps {Mid : Type} {post : Tid → Job → Outcome → Shared → Prop}
    {watched thread : Tid} {result : Mid → Shared → Prop} {prog : Async Mid} {state : Shared}
    (safe : Keeps platform post thread result prog state) :
    Safe (service platform) (afterDelete platform fileId watched) thread result prog state :=
  safe_contract (contract post) (afterDelete platform fileId watched) (fun _ held => held)
    (fun _ _ relies => relies) (fun _ _ life => life) (fun _ _ _ => trivial) safe

theorem job_refused (watched thread : Tid) (job : Job) (state : Shared) (rest : Async Outcome)
    (safe : Keeps platform (Promise platform) thread (Promise platform thread job) rest state)
    (waiting : ∀ request, thread = watched → job = .download request →
      uuidOf platform.unicode request.fileId = some fileId → Waiting platform request rest)
    (start : Gone fileId state) :
    Safe (service platform) (afterDelete platform fileId watched) thread
      (refusal platform fileId watched thread job) rest state := by
  by_cases applies : ∃ request, thread = watched ∧ job = .download request ∧
      uuidOf platform.unicode request.fileId = some fileId
  · obtain ⟨request, mine, rfl, known⟩ := applies
    have refused : Keeps platform (Promise platform) thread (fun out _ => ∀ response,
        out = Outcome.response response → Refused platform request response) rest state :=
      waiting_refused known start (waiting request mine rfl known)
    refine safe_mono (afterDelete_of_keeps refused) fun out later _ answer => ?_
    cases out with
    | response response => exact fun _ _ => answer response rfl
    | returned _ => trivial
    | raised => trivial
  · refine safe_mono (afterDelete_of_keeps safe) fun out later _ _ => ?_
    cases job with
    | download request =>
        cases out with
        | response response =>
            exact fun mine known => absurd ⟨request, mine, rfl, known⟩ applies
        | returned _ => trivial
        | raised => trivial
    | _ => trivial

theorem afterDelete_composes (watched : Tid) :
    Composes (service platform) (afterDelete platform fileId watched) where
  guar_inv := (composes platform (refusal platform fileId watched)).guar_inv
  guar_rely := (composes platform (refusal platform fileId watched)).guar_rely
  env_inv := fun before event after wf done _ =>
    (composes platform (refusal platform fileId watched)).env_inv before event after wf done trivial
  env_rely := fun thread before event after wf done _ =>
    (composes platform (refusal platform fileId watched)).env_rely thread before event after wf done
      trivial

/-- After the commit of a delete the watched request, unread so far, is refused. -/
theorem delete_refuses (run : Run (Step (service platform)) (deployed clock) first before)
    (deleted : Step (service platform) before (.act deleter (.commit writes) ()) after)
    (revokes : .setDeleted fileId deletedAt linkVersion ∈ writes)
    (rest : Run (Step (service platform)) after second last) (watched : Tid)
    (unread : Unread watched first) :
    AllSafe (service platform) (afterDelete platform fileId watched) last := by
  have reached := Run.next run deleted
  have gone := delete_gone run deleted revokes
  have unread_after : Unread watched (first ++ [.act deleter (.commit writes) ()]) := by
    intro condition rows member
    rcases List.mem_append.mp member with earlier | now
    · exact unread condition rows earlier
    · cases List.mem_singleton.mp now
  have start : AllSafe (service platform) (afterDelete platform fileId watched) after := by
    refine ⟨(service_safe reached).inv, fun thread job rest running => ?_⟩
    refine job_refused watched thread job after.shared rest
      ((service_safe reached).threads thread job rest running) ?_ gone
    rintro request rfl rfl known
    exact unread_waiting reached known unread_after running
  have guarded : Run (Allowed (service platform) (afterDelete platform fileId watched)) after second
      last := by
    clear start
    induction rest with
    | refl => exact .refl
    | next earlier taken ih =>
        refine .next ih ⟨taken, ?_⟩
        exact run_life (fun _ _ _ _ life => life_gone life) reached earlier gone
  refine run_safe (afterDelete_composes watched) (fun thread job state _ may gone => ?_) start
    guarded
  refine job_refused watched thread job state _ (program_keeps thread job state may) ?_ gone
  rintro request - rfl -
  exact Or.inl rfl

/-- A delete is final: a download whose database read comes after its commit is
refused whatever link it brings, the file stays a tombstone, and every link
issued before, meanwhile or later carries an older version. -/
theorem deleted_revoked (run : Run (Step (service platform)) (deployed clock) first before)
    (deleted : Step (service platform) before (.act deleter (.commit writes) ()) after)
    (revokes : .setDeleted fileId deletedAt linkVersion ∈ writes)
    (rest : Run (Step (service platform)) after second last) :
    (∀ thread request response next, Unread thread first →
      uuidOf platform.unicode request.fileId = some fileId →
      Step (service platform) last (.finish thread (.download request) (.response response)) next →
      Refused platform request response) ∧
    (∀ file ∈ last.shared.db.files, file.id = fileId → file.status = .deleted) ∧
    (∀ thread request response out,
      Label.finish thread (.createLink request) (.response response) ∈ first ++ second →
      response.body = .link out → request.fileId = fileId →
      ∃ version, out.v = decimal version ∧
        ∀ file ∈ last.shared.db.files, file.id = fileId → version < file.linkVersion) := by
  have reached := Run.next run deleted
  have gone := run_life (fun _ _ _ _ life => life_gone life) reached rest
    (delete_gone run deleted revokes)
  refine ⟨fun thread request response next unread known finished => ?_, gone.2, ?_⟩
  · have safe := delete_refuses run deleted revokes rest thread unread
    cases finished with
    | finish at_ret => exact safe.threads thread _ _ at_ret last.shared .refl safe.inv rfl known
  · intro thread request response out issued link named
    have linked : ∀ {labels left right}, Run (Step (service platform)) (deployed clock) labels left →
        Step (service platform) left (.finish thread (.createLink request) (.response response))
          right → ∃ version, out.v = decimal version ∧ Linked fileId version right.shared := by
      intro labels left right earlier finished
      obtain ⟨same, promise⟩ := service_step earlier finished
      obtain ⟨version, -, printed, held, -⟩ := promise out link
      exact ⟨version, printed, by rw [same]; exact named ▸ held⟩
    have older : ∀ {version labels labels' left},
        Run (Step (service platform)) (deployed clock) labels left →
        Run (Step (service platform)) left labels' last → Linked fileId version left.shared →
        ∀ file ∈ last.shared.db.files, file.id = fileId → version < file.linkVersion := by
      intro version labels labels' left earlier later held file inside same
      have linked := run_life (fun _ _ _ _ life => life_linked life) earlier later held
      exact (linked.2 file inside same).2 (gone.2 file inside same)
    rcases List.mem_append.mp issued with early | late
    · obtain ⟨_, _, left, right, -, start, finished, between⟩ := run_member run early
      obtain ⟨version, printed, held⟩ := linked start finished
      exact ⟨version, printed, older (.next start finished)
        (run_append (Run.next between deleted) rest) held⟩
    · obtain ⟨_, _, left, right, -, start, finished, between⟩ := run_member rest late
      obtain ⟨version, printed, held⟩ := linked (run_append reached start) finished
      exact ⟨version, printed, older (.next (run_append reached start) finished) between held⟩

end Runs

/-- Upload, link, and a delete up to its commit. -/
def beforeDelete : List ServiceMove :=
  smallUploaded ++ [.start (.api 1) (.createLink smallLink)] ++ prompts (.api 1) 3 ++
  [.finish (.api 1), .start (.api 2) (.deleteFile 9 1 none)] ++ prompts (.api 2) 2

def readsFiles (thread : Tid) : ServiceLabel → Bool
  | .act other (.selectFiles _) _ => decide (other = thread)
  | _ => false

/-- The first label commits the delete. -/
def deletesNext : List ServiceLabel → Bool
  | .act _ (.commit writes) _ :: _ => decide (.setDeleted 1 0 2 ∈ writes)
  | _ => false

def answered (config : ServiceConfig) : Bool :=
  match config.threads (.api 3) with
  | .running (.download request) (.ret (.response _)) =>
      decide (uuidOf plain.unicode request.fileId = some 1)
  | _ => false

/-- A link issued before the delete is refused after it, by a thread that had
started before. -/
theorem deleted_revoked_small : ∃ labels config request response next,
    Run (Step (service plain)) (deployed 0) labels config ∧
    Step (service plain) config (.finish (.api 3) (.download request) (.response response)) next ∧
    uuidOf plain.unicode request.fileId = some 1 ∧ Refused plain request response := by
  obtain ⟨labels, config, run, passed⟩ := drive_reaches (service plain) (deployed 0)
    (beforeDelete ++ prompts (.api 2) 1 ++ [.start (.api 3) (.download smallDownload)] ++
      prompts (.api 3) 3)
    (fun labels config => (labels.take 27).all (fun label => !readsFiles (.api 3) label) &&
      deletesNext (labels.drop 27) && answered config) (by decide +kernel)
  simp only [Bool.and_eq_true] at passed
  obtain ⟨⟨unread, deletes⟩, waiting⟩ := passed
  obtain ⟨middle, start, later⟩ := run_split run _ _ (List.take_append_drop 27 labels).symm
  unfold deletesNext at deletes
  unfold answered at waiting
  split at deletes
  · rename_i deleter writes answer rest same
    split at waiting
    · rename_i request response at_ret
      have known := of_decide_eq_true waiting
      have finished : Step (service plain) config _ _ := Step.finish at_ret
      rw [same] at later
      obtain ⟨after, deleted, rest⟩ := run_uncons later
      have refused := (deleted_revoked start deleted (of_decide_eq_true deletes) rest).1 (.api 3)
        request response _ ?_ known finished
      · exact ⟨labels, config, request, response, _, run, finished, known, refused⟩
      · intro condition rows member
        have quiet := List.all_eq_true.mp unread _ member
        simp [readsFiles] at quiet
    · cases waiting
  · cases deletes

end SecureFileSystem.Revocation
