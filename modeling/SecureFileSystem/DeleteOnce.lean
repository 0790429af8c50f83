import SecureFileSystem.Attribution
import SecureFileSystem.Revocation

/-!
Concurrent deletes of one file. As long as every delete is committed while the
file is still available there is one winner, whatever the interleaving; the
check and the write are two statements, so nothing makes sure of it.
-/

namespace SecureFileSystem.DeleteOnce

open Base Database Session LifeCycle Program Transition RelyGuarantee Files Routers Service
  Interference Stability Guarantees Attribution

variable {platform : Platform} {fileId : Uuid}

/-! ### The audit rows of a delete -/

def deletes (fileId : Uuid) (event : AuditEvent) : Bool :=
  event.eventType = .file_deleted && event.fileId = some fileId

def deletions (db : Db) (fileId : Uuid) : Nat := db.audit.countP (deletes fileId)

def mark (fileId : Uuid) : Write → Nat
  | .audit event => if deletes fileId event = true then 1 else 0
  | _ => 0

theorem write_deletions {db after : Db} (write : Write) (done : db.write write = some after)
    (kept : write ≠ .deleteFile fileId) :
    deletions after fileId = deletions db fileId + mark fileId write := by
  cases write with
  | audit event =>
      obtain ⟨-, same⟩ := Option.ite_none_right_eq_some.mp done
      cases same
      simp [deletions, mark, List.countP_append, List.countP_singleton]
  | deleteFile other =>
      cases done
      have different : other ≠ fileId := fun same => kept (congrArg _ same)
      simp only [deletions, mark, Nat.add_zero, List.countP_map]
      apply List.countP_congr
      intro event _
      by_cases named : event.fileId = some other
      · simp [deletes, named, different]
      · simp [deletes, named]
  | deleteShards _ => cases done; rfl
  | setLastSeen _ _ => cases done; rfl
  | setStatus _ _ => cases done; rfl
  | repoint _ _ _ =>
      obtain ⟨-, same⟩ := Option.ite_none_right_eq_some.mp done
      cases same
      rfl
  | _ =>
      obtain ⟨-, same⟩ := Option.ite_none_right_eq_some.mp done
      cases same
      rfl

theorem commit_deletions {db after : Db} (writes : List Write) (done : db.commit writes = some after)
    (kept : .deleteFile fileId ∉ writes) :
    deletions after fileId = deletions db fileId + (writes.map (mark fileId)).sum := by
  induction writes generalizing db with
  | nil =>
      cases done
      rfl
  | cons write rest ih =>
      obtain ⟨middle, one, done⟩ := Option.bind_eq_some_iff.mp done
      have here := write_deletions write one fun same => kept (same ▸ List.mem_cons_self)
      have later := ih done fun member => kept (List.mem_cons_of_mem _ member)
      rw [List.map_cons, List.sum_cons]
      omega

theorem enabled_mark {thread : Tid} {shared : Shared} {transaction : Transaction}
    (enabled : Enabled thread shared transaction) :
    ((∀ deletedAt linkVersion, .setDeleted fileId deletedAt linkVersion ∉ transaction.writes) →
      (transaction.writes.map (mark fileId)).sum = 0) ∧
    ∀ deletedAt linkVersion, .setDeleted fileId deletedAt linkVersion ∈ transaction.writes →
      (transaction.writes.map (mark fileId)).sum = 1 := by
  cases transaction with
  | revoke other time version event =>
      obtain ⟨kind, named, -⟩ := enabled
      by_cases mine : fileId = other
      · subst mine
        simp [Transaction.writes, mark, deletes, kind, named]
      · simp [Transaction.writes, mark, deletes, kind, named, mine, Ne.symm mine]
  | publish other event => simp [Transaction.writes, mark, deletes, enabled.2.2.1]
  | audit event => simp [Transaction.writes, mark, deletes, enabled.2]
  | observe writes =>
      have silent : ∀ write ∈ writes, mark fileId write = 0 := by
        intro write member
        have node := enabled write member
        cases write with
        | audit event => exact node.elim
        | _ => rfl
      constructor
      · exact fun _ => List.sum_eq_zero (by simpa [Transaction.writes] using silent)
      · exact fun deletedAt linkVersion member => (enabled _ member).elim
  | _ => simp [Transaction.writes, mark]

theorem retract_deletions {thread : Tid} {shared : Shared} {transaction : Transaction} {db : Db}
    (enabled : Enabled thread shared transaction)
    (done : shared.db.commit transaction.writes = some db)
    (retracts : .deleteFile fileId ∈ transaction.writes) : deletions db fileId = 0 := by
  cases transaction with
  | retract other =>
      obtain rfl : fileId = other := by simpa [Transaction.writes] using retracts
      cases done
      simp only [deletions, List.countP_map, List.countP_eq_zero]
      intro event _
      by_cases named : event.fileId = some fileId <;> simp [deletes, named]
  | observe writes => exact (enabled _ retracts).elim
  | _ => simp [Transaction.writes] at retracts

theorem environment_audit {before after : Shared} (event : Event)
    (done : environment platform before event = some after) : after.db.audit = before.db.audit := by
  cases event with
  | execute handle =>
      obtain ⟨flight, -, rfl⟩ := Option.map_eq_some_iff.mp done
      unfold Shared.execute
      split <;> rfl
  | lose handle =>
      obtain ⟨flight, -, rfl⟩ := Option.map_eq_some_iff.mp done
      rfl
  | misreply handle response =>
      obtain ⟨flight, -, rfl⟩ := Option.map_eq_some_iff.mp done
      rfl
  | register node =>
      obtain ⟨-, same⟩ := Option.ite_none_right_eq_some.mp done
      cases same
      rfl
  | tick seconds => cases done; rfl
  | damage node shardId entry => cases done; rfl
  | operator node status => cases done; rfl

/-! ### The row of the file -/

/-- No step but a delete of the file touches its row or adds to its deletions. -/
structure Kept (file : File) (before after : Shared) : Prop where
  row : file ∈ after.db.files
  count : deletions after.db file.id = deletions before.db file.id

structure Revoked (file : File) (before after : Shared) (label : ServiceLabel) : Prop where
  commits : ∃ thread writes deletedAt linkVersion, label = .act thread (.commit writes) () ∧
    .setDeleted file.id deletedAt linkVersion ∈ writes
  standing : file.status = .available
  row : ∃ deletedAt, revokeFile deletedAt (file.linkVersion + 1) file ∈ after.db.files
  count : deletions after.db file.id = deletions before.db file.id + 1

/-- Every delete of the file is committed while the file is still available, and
no clean-up of uploads takes the row. -/
def Orderly (fileId : Uuid) (config : ServiceConfig) : ServiceLabel → Prop
  | .act _ (.commit writes) _ => .deleteFile fileId ∉ writes ∧
      ∀ deletedAt linkVersion, .setDeleted fileId deletedAt linkVersion ∈ writes →
        ∀ row ∈ config.shared.db.files, row.id = fileId → row.status = .available
  | _ => True

theorem update_other {fileId : Uuid} {change : File → File} {files : List File} {file : File}
    (member : file ∈ files) (other : file.id ≠ fileId) : file ∈ File.update fileId change files :=
  List.mem_map.mpr ⟨file, member, if_neg other⟩

theorem update_self {change : File → File} {files : List File} {file : File}
    (member : file ∈ files) : change file ∈ File.update file.id change files :=
  List.mem_map.mpr ⟨file, member, if_pos rfl⟩

theorem commit_row {thread : Tid} {shared : Shared} {transaction : Transaction} {db : Db}
    {file : File} (enabled : Enabled thread shared transaction)
    (done : shared.db.commit transaction.writes = some db) (present : file ∈ shared.db.files)
    (standing : file.status ≠ .uploading) (kept : .deleteFile file.id ∉ transaction.writes) :
    (file ∈ db.files ∧ ∀ deletedAt linkVersion,
      .setDeleted file.id deletedAt linkVersion ∉ transaction.writes) ∨
    ∃ deletedAt linkVersion, .setDeleted file.id deletedAt linkVersion ∈ transaction.writes ∧
      revokeFile deletedAt linkVersion file ∈ db.files ∧
      (file.status = .available → linkVersion = file.linkVersion + 1) := by
  have files : db.files = (transaction.effect (catalog shared.db)).files :=
    congrArg Catalog.files (Ledger.enabled_effect enabled done).1
  rw [files]
  cases transaction with
  | upload new shards =>
      exact Or.inl ⟨List.mem_append_left _ present, by simp [Transaction.writes]⟩
  | publish other event =>
      have different : file.id ≠ other := by
        intro same
        exact standing (enabled.2.2.2.2 file present same)
      exact Or.inl ⟨update_other present different, by simp [Transaction.writes]⟩
  | retract other =>
      have different : file.id ≠ other := by
        rintro rfl
        exact kept (by simp [Transaction.writes])
      refine Or.inl ⟨List.mem_filter.mpr ⟨present, by simpa using different⟩, ?_⟩
      simp [Transaction.writes]
  | revoke other time version event =>
      by_cases mine : file.id = other
      · subst mine
        right
        refine ⟨time, version, by simp [Transaction.writes], update_self present, ?_⟩
        intro available
        rcases enabled.2.2 file present rfl with ⟨-, same⟩ | ⟨gone, -⟩
        · exact same
        · rw [available] at gone
          cases gone
      · exact Or.inl ⟨update_other present mine, by simp [Transaction.writes, mine]⟩
  | discard ids => exact Or.inl ⟨present, by simp [Transaction.writes]⟩
  | repoint old new node => exact Or.inl ⟨present, by simp [Transaction.writes]⟩
  | observe writes =>
      exact Or.inl ⟨present, fun deletedAt linkVersion member => enabled _ member⟩
  | audit event => exact Or.inl ⟨present, by simp [Transaction.writes]⟩

theorem step_row {clock : Nat} {labels : List ServiceLabel} {before after : ServiceConfig}
    {label : ServiceLabel} {file : File}
    (reached : Run (Step (service platform)) (deployed clock) labels before)
    (taken : Guarded (Orderly file.id) (Step (service platform)) before label after)
    (present : file ∈ before.shared.db.files) (standing : file.status ≠ .uploading) :
    (Kept file before.shared after.shared ∧ ∀ thread writes deletedAt linkVersion,
      label = .act thread (.commit writes) () →
        .setDeleted file.id deletedAt linkVersion ∉ writes) ∨
    Revoked file before.shared after.shared label := by
  obtain ⟨step, orderly⟩ := taken
  have still : after.shared.db = before.shared.db → Kept file before.shared after.shared := by
    intro same
    constructor
    · rw [same]
      exact present
    · rw [same]
  cases step with
  | start _ _ => exact Or.inl ⟨still rfl, nofun⟩
  | fail _ => exact Or.inl ⟨still rfl, nofun⟩
  | finish _ => exact Or.inl ⟨still rfl, nofun⟩
  | @env event shared done =>
      refine Or.inl ⟨⟨?_, ?_⟩, nofun⟩
      · rw [(environment_undisturbed event done).files]
        exact present
      · simp only [deletions, environment_audit event done]
  | @act thread job request next answer shared at_op done =>
      -- Only a commit can change a row.
      by_cases writing : commits request = []
      · refine Or.inl ⟨still (exec_db writing done), ?_⟩
        rintro _ _ _ _ ⟨⟩
        cases writing
      · cases request with
        | commit writes =>
            obtain ⟨transaction, db, rfl, enabled, committed, recorded⟩ :=
              service_commit reached (.act at_op done)
            obtain ⟨kept, order⟩ := orderly
            have count := commit_deletions _ committed kept
            have result : shared.db = db := by
              change shared = _ at recorded
              rw [recorded]
              rfl
            rcases commit_row enabled committed present standing kept with
              ⟨stays, calm⟩ | ⟨deletedAt, linkVersion, revokes, row, version⟩
            · rw [(enabled_mark enabled).1 calm] at count
              left
              refine ⟨⟨result ▸ stays, result ▸ count⟩, ?_⟩
              rintro _ _ deletedAt linkVersion ⟨⟩
              exact calm deletedAt linkVersion
            · rw [(enabled_mark enabled).2 _ _ revokes] at count
              have available := order _ _ revokes file present rfl
              right
              constructor
              case commits => exact ⟨_, _, _, _, rfl, revokes⟩
              case standing => exact available
              case row =>
                rw [version available] at row
                exact ⟨deletedAt, result ▸ row⟩
              case count => exact result ▸ count
        | _ => exact absurd rfl writing

theorem deletions_gone {clock : Nat} {labels : List ServiceLabel} {config : ServiceConfig}
    (run : Run (Step (service platform)) (deployed clock) labels config) (fileId : Uuid) :
    deletions config.shared.db fileId = 0 ∨ Gone fileId config.shared := by
  induction run with
  | refl => exact Or.inl rfl
  | @next middle last labels label ran taken ih =>
      rcases ih with none | gone
      · have still : last.shared.db.audit = middle.shared.db.audit →
            deletions last.shared.db fileId = 0 := by
          intro same
          rw [deletions, same]
          exact none
        have whole := taken
        cases taken with
        | start _ _ => exact Or.inl none
        | fail _ => exact Or.inl none
        | finish _ => exact Or.inl none
        | env done => exact Or.inl (still (environment_audit _ done))
        | @act thread job request next answer shared at_op done =>
            by_cases writing : commits request = []
            · exact Or.inl (still (congrArg Db.audit (exec_db writing done)))
            · cases request with
              | commit writes =>
                  obtain ⟨transaction, db, rfl, enabled, committed, recorded⟩ :=
                    service_commit ran whole
                  by_cases revokes : ∃ deletedAt linkVersion,
                      .setDeleted fileId deletedAt linkVersion ∈ transaction.writes
                  · obtain ⟨deletedAt, linkVersion, revokes⟩ := revokes
                    exact Or.inr (Revocation.delete_gone ran whole revokes)
                  · left
                    rw [recorded]
                    change deletions db fileId = 0
                    by_cases kept : .deleteFile fileId ∈ transaction.writes
                    · exact retract_deletions enabled committed kept
                    · rw [commit_deletions _ committed kept, none,
                        (enabled_mark enabled).1 (by simpa using revokes)]
              | _ => exact absurd rfl writing
      · obtain ⟨thread, life⟩ := service_life ran taken
        exact Or.inr (life_gone life gone)

/-! ### Where a request is -/

def deleted : Outcome := .response ⟨204, .empty⟩
def missing : Outcome := .response fileNotFound

def removing (file : File) : Async Outcome :=
  (removeDeletedShards file).bind fun _ => .ret deleted

def committing (file : File) (userId : Uuid) (ipAddress : Option Text) (deletedAt : Nat) :
    Async Outcome :=
  .op (.commit [.setDeleted file.id deletedAt (file.linkVersion + 1),
    record .file_deleted (some file.id) (some userId) none ipAddress]) fun _ => removing file

def checked (userId : Uuid) (ipAddress : Option Text) : Option File → Async Outcome
  | none => .ret missing
  | some file => .op .now (committing file userId ipAddress)

def checking (userId fileId : Uuid) (ipAddress : Option Text) : Async Outcome :=
  .op (.selectFiles (owned userId fileId)) fun rows => checked userId ipAddress rows.head?

theorem program_deleteFile (userId fileId : Uuid) (ipAddress : Option Text) :
    program platform (.deleteFile userId fileId ipAddress) = checking userId fileId ipAddress := by
  change Prog.op _ _ = Prog.op _ _
  congr 1
  funext rows
  dsimp only [Prog.ret_bind, Prog.pure_eq]
  cases rows.head? with
  | none => rfl
  | some file => rfl

inductive Early (userId fileId : Uuid) : Async Outcome → Prop
  | checking (ipAddress : Option Text) : Early userId fileId (checking userId fileId ipAddress)
  | dating (file : File) (named : file.id = fileId) (ipAddress : Option Text) :
      Early userId fileId (.op .now (committing file userId ipAddress))
  | committing (file : File) (named : file.id = fileId) (ipAddress : Option Text)
      (deletedAt : Nat) : Early userId fileId (committing file userId ipAddress deletedAt)

structure Late (rest : Async Outcome) : Prop where
  ends : rest.Ends fun out => out = deleted
  calm : rest.Only (Within fun write => ∀ other deletedAt linkVersion,
    write ≠ .setDeleted other deletedAt linkVersion)

theorem removing_late (file : File) : Late (removing file) where
  ends := Prog.ends_bind (Prog.ends_true _) fun _ _ => rfl
  calm := result_within (removeDeletedShards_within (by simp) file)

inductive Stage (userId fileId : Uuid) : Async Outcome → Prop
  | early {rest : Async Outcome} (early : Early userId fileId rest) : Stage userId fileId rest
  | refused : Stage userId fileId (.ret missing)
  | late {rest : Async Outcome} (late : Late rest) : Stage userId fileId rest

theorem late_next {request : Op} {next : Res request → Async Outcome}
    (late : Late (.op request next)) (answer : Res request) : Late (next answer) :=
  ⟨late.ends answer, late.calm.2 answer⟩

/-- An answered request is at its next stage; only the commit of the delete makes it late. -/
theorem early_next {thread : Tid} {before after : Shared} {userId : Uuid} {request : Op}
    {next : Res request → Async Outcome} {answer : Res request}
    (early : Early userId fileId (.op request next))
    (done : exec thread before request answer = some after) :
    Early userId fileId (next answer) ∨
    ((∀ file ∈ before.db.files, ¬ (owned userId fileId before.db file = true)) ∧
      next answer = .ret missing) ∨
    ((∃ writes deletedAt linkVersion, request = .commit writes ∧
      .setDeleted fileId deletedAt linkVersion ∈ writes) ∧ Late (next answer)) := by
  generalize waits : Prog.op request next = rest at early
  cases early with
  | checking ipAddress =>
      cases waits
      have rows := (Option.ite_none_right_eq_some.mp done).1
      cases found : List.head? answer with
      | none =>
          right
          left
          have empty := List.head?_eq_none_iff.mp found
          subst empty
          constructor
          · exact List.filter_eq_nil_iff.mp rows.nil_eq.symm
          · rfl
      | some file =>
          left
          have member := List.mem_filter.mp (rows.mem_iff.mp (List.mem_of_head? found))
          change Early userId fileId (checked userId ipAddress (List.head? answer))
          rw [found]
          apply Early.dating file
          have matched := member.2
          simp only [owned, Bool.and_eq_true, decide_eq_true_eq] at matched
          exact matched.1.1
  | dating file named ipAddress =>
      cases waits
      exact Or.inl (.committing file named ipAddress answer)
  | committing file named ipAddress deletedAt =>
      cases waits
      right
      right
      exact ⟨⟨_, deletedAt, file.linkVersion + 1, rfl, by simp [named]⟩, removing_late file⟩

theorem stage_next {thread : Tid} {before after : Shared} {userId : Uuid} {request : Op}
    {next : Res request → Async Outcome} {answer : Res request}
    (stage : Stage userId fileId (.op request next))
    (done : exec thread before request answer = some after) :
    Stage userId fileId (next answer) := by
  cases stage with
  | early early =>
      rcases early_next early done with further | ⟨-, refused⟩ | ⟨-, late⟩
      · exact .early further
      · exact refused ▸ .refused
      · exact .late late
  | late late => exact .late (late_next late answer)

/-- Every delete is at a stage of its own file. -/
theorem run_stage {clock : Nat} {labels : List ServiceLabel} {config : ServiceConfig}
    (run : Run (Step (service platform)) (deployed clock) labels config) {thread : Tid}
    {userId fileId : Uuid} {ipAddress : Option Text} {rest : Async Outcome}
    (running : config.threads thread = .running (.deleteFile userId fileId ipAddress) rest) :
    Stage userId fileId rest := by
  induction run generalizing rest with
  | refl => cases running
  | next ran taken ih =>
      rcases step_running taken running with old | ⟨-, rfl, -⟩ |
        ⟨request, next, answer, -, rfl, at_op, done⟩
      · exact ih old
      · have begins : (service platform).program (.deleteFile userId fileId ipAddress) =
          checking userId fileId ipAddress := @program_deleteFile platform userId fileId ipAddress
        rw [begins]
        exact .early (.checking ipAddress)
      · exact stage_next (ih at_op) done

/-- A commit that deletes the file is that of a DELETE request for it, which goes
on to the removal of its shards. -/
theorem deletes_file {clock : Nat} {labels : List ServiceLabel} {config : ServiceConfig}
    (run : Run (Step (service platform)) (deployed clock) labels config) {thread : Tid} {job : Job}
    {writes : List Write} {next : Unit → Async Outcome} {deletedAt linkVersion : Nat}
    (at_op : config.threads thread = .running job (.op (.commit writes) next))
    (revokes : .setDeleted fileId deletedAt linkVersion ∈ writes) :
    ∃ userId ipAddress file, job = .deleteFile userId fileId ipAddress ∧ file.id = fileId ∧
      next () = removing file := by
  have may := (running_within run at_op).1 _ revokes
  cases job with
  | deleteFile userId other ipAddress =>
      have stage := run_stage run at_op
      generalize waits : (Prog.op (Op.commit writes) next : Async Outcome) = rest at stage
      cases stage with
      | early early =>
          cases early with
          | checking _ => cases waits
          | dating _ _ _ => cases waits
          | committing file named _ _ =>
              cases waits
              simp only [record, List.mem_cons, Write.setDeleted.injEq, List.not_mem_nil, or_false,
                reduceCtorEq] at revokes
              obtain rfl := revokes.1
              exact ⟨userId, ipAddress, file, named ▸ rfl, rfl, rfl⟩
      | refused => cases waits
      | late late =>
          subst waits
          exact absurd rfl (late.calm.1 _ revokes fileId deletedAt linkVersion)
  | _ => exact may.elim

/-! ### One winner -/

def Asks (file : File) (job : Job) : Prop :=
  ∃ ipAddress, job = .deleteFile file.ownerUserId file.id ipAddress

def Sent (file : File) (labels : List ServiceLabel) (thread : Tid) : Prop :=
  ∃ job, Asks file job ∧ .start thread job ∈ labels

def Answered (file : File) (labels : List ServiceLabel) (thread : Tid) (out : Outcome) : Prop :=
  ∃ job, Asks file job ∧ .finish thread job out ∈ labels

/-- No request has deleted the file, and none has been answered. -/
structure Undeleted (file : File) (labels : List ServiceLabel) (config : ServiceConfig) : Prop where
  row : file ∈ config.shared.db.files
  count : deletions config.shared.db file.id = 0
  answers : ∀ thread out, ¬ Answered file labels thread out

/-- One request has deleted the file: it alone is answered so, there is one audit
row, and the link version is one higher. -/
structure DeletedBy (file : File) (labels : List ServiceLabel) (config : ServiceConfig)
    (winner : Tid) : Prop where
  sent : Sent file labels winner
  row : ∃ deletedAt, revokeFile deletedAt (file.linkVersion + 1) file ∈ config.shared.db.files
  count : deletions config.shared.db file.id = 1
  answers : ∀ thread out, Answered file labels thread out →
    out = if thread = winner then deleted else missing

structure Open (file : File) (labels : List ServiceLabel) (config : ServiceConfig) : Prop where
  undeleted : Undeleted file labels config
  early : ∀ thread job rest, Asks file job → config.threads thread = .running job rest →
    Early file.ownerUserId file.id rest

structure Closed (file : File) (labels : List ServiceLabel) (config : ServiceConfig) (winner : Tid) :
    Prop where
  done : DeletedBy file labels config winner
  request : winner ≠ .worker
  losers : ∀ thread job rest, thread ≠ winner → Asks file job →
    config.threads thread = .running job rest →
      Early file.ownerUserId file.id rest ∨ rest = .ret missing
  won : config.threads winner = .ended ∨
    ∃ job rest, config.threads winner = .running job rest ∧ Late rest

structure Course (file : File) (labels : List ServiceLabel) (config : ServiceConfig) : Prop where
  sent : ∀ thread job rest, Asks file job → config.threads thread = .running job rest →
    Sent file labels thread ∧ thread ≠ .worker
  strangers : ∀ thread userId ipAddress rest, userId ≠ file.ownerUserId →
    config.threads thread = .running (.deleteFile userId file.id ipAddress) rest →
      rest = checking userId file.id ipAddress ∨ rest = .ret missing
  state : Open file labels config ∨ ∃ winner, Closed file labels config winner

section Steps
variable {clock : Nat} {earlier labels : List ServiceLabel} {before after : ServiceConfig}
  {label : ServiceLabel} {file : File}

theorem course_row (course : Course file labels before) :
    ∃ row ∈ before.shared.db.files, row.id = file.id ∧ row.ownerUserId = file.ownerUserId := by
  rcases course.state with opened | ⟨winner, closed⟩
  · exact ⟨file, opened.undeleted.row, rfl, rfl⟩
  · obtain ⟨deletedAt, row⟩ := closed.done.row
    exact ⟨_, row, rfl, rfl⟩

theorem program_asks {job : Job} (asks : Asks file job) :
    ∃ ipAddress, (service platform).program job = checking file.ownerUserId file.id ipAddress := by
  obtain ⟨ipAddress, rfl⟩ := asks
  exact ⟨ipAddress, @program_deleteFile platform file.ownerUserId file.id ipAddress⟩

theorem sent_step (taken : Step (service platform) before label after)
    (course : Course file labels before) {thread : Tid} {job : Job} {rest : Async Outcome}
    (asks : Asks file job) (running : after.threads thread = .running job rest) :
    Sent file (labels ++ [label]) thread ∧ thread ≠ .worker := by
  have older : ∀ {rest}, before.threads thread = .running job rest →
      Sent file (labels ++ [label]) thread ∧ thread ≠ .worker := by
    intro rest old
    obtain ⟨⟨begun, same, member⟩, request⟩ := course.sent thread job rest asks old
    exact ⟨⟨begun, same, List.mem_append_left _ member⟩, request⟩
  rcases step_running taken running with old | ⟨rfl, -, may⟩ | ⟨_, _, _, -, -, at_op, -⟩
  · exact older old
  · refine ⟨⟨job, asks, List.mem_append_right _ (List.mem_singleton.mpr rfl)⟩, ?_⟩
    rintro rfl
    obtain ⟨ipAddress, rfl⟩ := asks
    cases may
  · exact older at_op

/-- Nobody but the owner gets past the check. -/
theorem stranger_step (reached : Run (Step (service platform)) (deployed clock) earlier before)
    (taken : Step (service platform) before label after) (course : Course file labels before)
    {thread : Tid} {userId : Uuid} {ipAddress : Option Text} {rest : Async Outcome}
    (stranger : userId ≠ file.ownerUserId)
    (running : after.threads thread = .running (.deleteFile userId file.id ipAddress) rest) :
    rest = checking userId file.id ipAddress ∨ rest = .ret missing := by
  rcases step_running taken running with old | ⟨-, rfl, -⟩ |
    ⟨request, next, answer, -, rfl, at_op, done⟩
  · exact course.strangers thread userId ipAddress rest stranger old
  · exact Or.inl (@program_deleteFile platform userId file.id ipAddress)
  · rcases course.strangers thread userId ipAddress _ stranger at_op with here | refused
    · cases here
      right
      obtain ⟨row, present, named, owner⟩ := course_row course
      have rows := (Option.ite_none_right_eq_some.mp done).1
      have none : before.shared.db.files.filter (owned userId file.id before.shared.db) = [] := by
        apply List.filter_eq_nil_iff.mpr
        intro other inside matched
        simp only [owned, Bool.and_eq_true, decide_eq_true_eq] at matched
        have same := List.inj_on_of_nodup_map (service_safe reached).inv.files_nodup inside present
          (matched.1.1.trans named.symm)
        exact stranger (matched.1.2.symm.trans (same ▸ owner))
      rw [none] at rows
      obtain rfl := rows.eq_nil
      rfl
    · cases refused

theorem answered_snoc {thread : Tid} {out : Outcome}
    (answered : Answered file (labels ++ [label]) thread out) :
    Answered file labels thread out ∨ ∃ job, Asks file job ∧ label = .finish thread job out := by
  obtain ⟨job, asks, member⟩ := answered
  rcases List.mem_append.mp member with old | new
  · exact Or.inl ⟨job, asks, old⟩
  · exact Or.inr ⟨job, asks, (List.mem_singleton.mp new).symm⟩

theorem early_open {userId : Uuid} {out : Outcome} : ¬ Early userId fileId (.ret out) := by
  intro early
  generalize ends : (Prog.ret out : Async Outcome) = rest at early
  cases early with
  | checking _ => cases ends
  | dating _ _ _ => cases ends
  | committing _ _ _ _ => cases ends

theorem open_step (reached : Run (Step (service platform)) (deployed clock) earlier before)
    (taken : Guarded (Orderly file.id) (Step (service platform)) before label after)
    (available : file.status = .available) (course : Course file labels before)
    (opened : Open file labels before) :
    Open file (labels ++ [label]) after ∨ ∃ winner, Closed file (labels ++ [label]) after winner := by
  -- Nobody can have been answered yet: the row is untouched.
  have silent : ∀ thread out, ¬ Answered file (labels ++ [label]) thread out := by
    intro thread out answered
    rcases answered_snoc answered with old | ⟨job, asks, rfl⟩
    · exact opened.undeleted.answers thread out old
    · cases taken.1 with
      | finish at_ret => exact early_open (opened.early thread job _ asks at_ret)
  rcases step_row reached taken opened.undeleted.row (by simp [available]) with
    ⟨kept, calm⟩ | revoked
  · left
    refine ⟨⟨kept.row, kept.count.trans opened.undeleted.count, silent⟩, ?_⟩
    intro thread job rest asks running
    rcases step_running taken.1 running with old | ⟨-, rfl, -⟩ |
      ⟨request, next, answer, rfl, rfl, at_op, done⟩
    · exact opened.early thread job rest asks old
    · obtain ⟨ipAddress, begins⟩ := @program_asks platform file job asks
      exact begins ▸ .checking ipAddress
    · rcases early_next (opened.early thread job _ asks at_op) done with
        further | ⟨none, -⟩ | ⟨⟨writes, deletedAt, linkVersion, rfl, revokes⟩, -⟩
      · exact further
      · exact absurd (by simp [owned, available]) (none file opened.undeleted.row)
      · exact absurd revokes (calm thread writes deletedAt linkVersion rfl)
  · right
    obtain ⟨winner, writes, deletedAt, linkVersion, rfl, revokes⟩ := revoked.commits
    cases taken.1 with
    | @act _ job _ next _ shared at_op done =>
        obtain ⟨userId, ipAddress, row, rfl, -, removes⟩ := deletes_file reached at_op revokes
        have late : Late (next ()) := removes ▸ removing_late row
        have owner : userId = file.ownerUserId := by
          by_contra stranger
          rcases course.strangers winner userId ipAddress _ stranger at_op with same | same
          · cases same
          · cases same
        subst owner
        have asks : Asks file (.deleteFile file.ownerUserId file.id ipAddress) := ⟨ipAddress, rfl⟩
        have here : ({ before.set winner (.running _ (next ())) with shared := shared } :
            ServiceConfig).threads winner =
              .running (.deleteFile file.ownerUserId file.id ipAddress) (next ()) :=
          (threads_set before winner winner _).trans (if_pos rfl)
        obtain ⟨sent, request⟩ := sent_step taken.1 course asks here
        refine ⟨winner, ⟨sent, revoked.row, ?_, ?_⟩, request, ?_, Or.inr ⟨_, _, here, late⟩⟩
        · rw [revoked.count, opened.undeleted.count]
        · exact fun thread out answered => absurd answered (silent thread out)
        · intro thread job rest other asks running
          left
          rcases step_running taken.1 running with old | ⟨same, -, -⟩ | ⟨_, _, _, same, -, -, -⟩
          · exact opened.early thread job rest asks old
          · cases same
          · cases same
            exact absurd rfl other

theorem closed_step (reached : Run (Step (service platform)) (deployed clock) earlier before)
    (taken : Guarded (Orderly file.id) (Step (service platform)) before label after)
    {winner : Tid} (closed : Closed file labels before winner) :
    Closed file (labels ++ [label]) after winner := by
  obtain ⟨deletedAt, row⟩ := closed.done.row
  rcases @step_row _ _ _ _ _ _ (revokeFile deletedAt (file.linkVersion + 1) file) reached taken row
    (by simp [revokeFile]) with ⟨kept, calm⟩ | revoked
  · obtain ⟨job, asks, begun⟩ := closed.done.sent
    constructor
    case done =>
      refine ⟨⟨job, asks, List.mem_append_left _ begun⟩, ⟨deletedAt, kept.row⟩,
        kept.count.trans closed.done.count, ?_⟩
      intro thread out answered
      rcases answered_snoc answered with old | ⟨job, asks, rfl⟩
      · exact closed.done.answers thread out old
      · cases taken.1 with
        | finish at_ret =>
            split
            · rename_i mine
              subst mine
              rcases closed.won with ended | ⟨_, _, running, late⟩
              · rw [at_ret] at ended
                cases ended
              · rw [at_ret] at running
                cases running
                exact late.ends
            · rename_i other
              rcases closed.losers thread job _ other asks at_ret with early | same
              · exact absurd early early_open
              · cases same
                rfl
    case request => exact closed.request
    case losers =>
      intro thread job rest other asks running
      rcases step_running taken.1 running with old | ⟨-, rfl, -⟩ |
        ⟨request, next, answer, rfl, rfl, at_op, done⟩
      · exact closed.losers thread job rest other asks old
      · obtain ⟨ipAddress, begins⟩ := @program_asks platform file job asks
        exact Or.inl (begins ▸ .checking ipAddress)
      · rcases closed.losers thread job _ other asks at_op with early | same
        · rcases early_next early done with
            further | ⟨-, refused⟩ | ⟨⟨writes, time, version, rfl, revokes⟩, -⟩
          · exact Or.inl further
          · exact Or.inr refused
          · exact absurd revokes (calm thread writes time version rfl)
        · cases same
    case won =>
      rcases closed.won with ended | ⟨job, rest, running, late⟩
      · exact Or.inl (step_ended taken.1 (by simp [service, closed.request]) ended)
      · rcases step_status taken.1 running with ended | stays | ⟨request, next, answer, rfl, on⟩
        · exact Or.inl ended
        · exact Or.inr ⟨job, rest, stays, late⟩
        · exact Or.inr ⟨job, _, on, late_next late answer⟩
  · exact absurd revoked.standing (by simp [revokeFile])

theorem course_step (reached : Run (Step (service platform)) (deployed clock) earlier before)
    (taken : Guarded (Orderly file.id) (Step (service platform)) before label after)
    (available : file.status = .available) (course : Course file labels before) :
    Course file (labels ++ [label]) after := by
  constructor
  case sent => exact fun thread job rest asks running => sent_step taken.1 course asks running
  case strangers =>
    exact fun thread userId ipAddress rest stranger running =>
      stranger_step reached taken.1 course stranger running
  case state =>
    rcases course.state with opened | ⟨winner, closed⟩
    · exact open_step reached taken available course opened
    · exact Or.inr ⟨winner, closed_step reached taken closed⟩

end Steps

section Runs
variable {clock : Nat} {earlier labels : List ServiceLabel} {start last : ServiceConfig} {file : File}

theorem course_start (reached : Run (Step (service platform)) (deployed clock) earlier start)
    (present : file ∈ start.shared.db.files) (available : file.status = .available)
    (idle : ∀ thread userId ipAddress rest,
      start.threads thread ≠ .running (.deleteFile userId file.id ipAddress) rest) :
    Course file [] start := by
  have none : ∀ thread job rest, Asks file job → start.threads thread ≠ .running job rest := by
    rintro thread _ rest ⟨ipAddress, rfl⟩
    exact idle thread _ ipAddress rest
  constructor
  case sent =>
    exact fun thread job rest asks running => absurd running (none thread job rest asks)
  case strangers =>
    exact fun thread userId ipAddress rest _ running =>
      absurd running (idle thread userId ipAddress rest)
  case state =>
    left
    refine ⟨⟨present, ?_, ?_⟩, fun thread job rest asks running =>
      absurd running (none thread job rest asks)⟩
    · rcases deletions_gone reached file.id with count | gone
      · exact count
      · rw [gone.2 file present rfl] at available
        cases available
    · rintro thread out ⟨job, -, member⟩
      cases member

/-- As long as every delete of the file is committed while it is still
available, one request deletes it and the others find it gone. -/
theorem delete_once (reached : Run (Step (service platform)) (deployed clock) earlier start)
    (present : file ∈ start.shared.db.files) (available : file.status = .available)
    (idle : ∀ thread userId ipAddress rest,
      start.threads thread ≠ .running (.deleteFile userId file.id ipAddress) rest)
    (run : Run (Guarded (Orderly file.id) (Step (service platform))) start labels last) :
    (Undeleted file labels last ∨ ∃ winner, DeletedBy file labels last winner) ∧
    ((∃ thread, Sent file labels thread) →
      (∀ thread, Sent file labels thread → ∃ out, Answered file labels thread out) →
      ∃ winner, DeletedBy file labels last winner ∧ Answered file labels winner deleted) := by
  have course : Course file labels last := by
    induction run with
    | refl => exact course_start reached present available idle
    | next ran taken ih =>
        exact course_step (run_append reached (guarded_run ran)) taken available ih
  constructor
  · rcases course.state with opened | ⟨winner, closed⟩
    · exact Or.inl opened.undeleted
    · exact Or.inr ⟨winner, closed.done⟩
  · rintro ⟨thread, sent⟩ all
    rcases course.state with opened | ⟨winner, closed⟩
    · obtain ⟨out, answered⟩ := all thread sent
      exact absurd answered (opened.undeleted.answers thread out)
    · obtain ⟨out, answered⟩ := all winner closed.done.sent
      have same := closed.done.answers winner out answered
      rw [if_pos rfl] at same
      exact ⟨winner, closed.done, same ▸ answered⟩

end Runs

/-! ### Two requests -/

def smallFile : File where
  id := 1
  ownerUserId := 9
  originalName := ['f']
  contentType := ['t']
  sizeBytes := 1
  checksumSha256 := smallDigest
  dataShards := 1
  parityShards := 1
  linkVersion := 1
  status := .available
  uploadedAt := 0
  deletedAt := none

/-- Two DELETEs of the small upload, the second up to its check. -/
def twoChecks : List ServiceMove :=
  [.start (.api 1) (.deleteFile 9 1 none), .start (.api 2) (.deleteFile 9 1 none)] ++
  prompts (.api 1) 2

def firstDeletes : List ServiceMove :=
  prompts (.api 1) 3 ++ delivers [2, 3] ++ prompts (.api 1) 2 ++ [.finish (.api 1)]

def asks : Job → Bool
  | .deleteFile userId fileId _ => decide (userId = 9 ∧ fileId = 1)
  | _ => false

theorem asks_iff {job : Job} : asks job = true ↔ Asks smallFile job := by
  constructor
  · intro asked
    cases job with
    | deleteFile userId fileId ipAddress =>
        obtain ⟨rfl, rfl⟩ := of_decide_eq_true asked
        exact ⟨ipAddress, rfl⟩
    | _ => cases asked
  · rintro ⟨ipAddress, rfl⟩
    rfl

def finishes (thread : Tid) (response : Response) : ServiceLabel → Bool
  | .finish other job (.response sent) => decide (other = thread ∧ sent = response) && asks job
  | _ => false

theorem finishes_answered {labels : List ServiceLabel} {thread : Tid} {response : Response}
    (found : labels.any (finishes thread response) = true) :
    Answered smallFile labels thread (.response response) := by
  obtain ⟨label, member, matched⟩ := List.any_eq_true.mp found
  unfold finishes at matched
  split at matched
  · rename_i other job sent
    obtain ⟨both, asked⟩ := Bool.and_eq_true_iff.mp matched
    obtain ⟨rfl, rfl⟩ := of_decide_eq_true both
    exact ⟨job, asks_iff.mp asked, member⟩
  · cases matched

def startsDelete : ServiceLabel → Bool
  | .start _ (.deleteFile _ _ _) => true
  | _ => false

def uploadedThen (may : ServiceConfig → ServiceLabel → Bool) (moves : List ServiceMove)
    (check : List ServiceLabel → ServiceConfig → Bool) (labels : List ServiceLabel)
    (start : ServiceConfig) : Bool :=
  labels.all (fun label => !startsDelete label) && decide (smallFile ∈ start.shared.db.files) &&
    (drive (service plain) may start moves).any fun driven => check driven.1 driven.2

theorem uploaded_reaches (may : ServiceConfig → ServiceLabel → Bool) (moves : List ServiceMove)
    (check : List ServiceLabel → ServiceConfig → Bool)
    (passed : (drive (service plain) (fun _ _ => true) (deployed 0) smallUploaded).any
      (fun driven => uploadedThen may moves check driven.1 driven.2) = true) :
    ∃ earlier start labels last, Run (Step (service plain)) (deployed 0) earlier start ∧
      smallFile ∈ start.shared.db.files ∧
      (∀ thread userId ipAddress rest,
        start.threads thread ≠ .running (.deleteFile userId 1 ipAddress) rest) ∧
      Run (Guarded (fun config label => may config label = true) (Step (service plain))) start labels
        last ∧ check labels last = true := by
  obtain ⟨earlier, start, reached, checked⟩ := drive_reaches (service plain) (deployed 0)
    smallUploaded (uploadedThen may moves check) passed
  simp only [uploadedThen, Bool.and_eq_true, decide_eq_true_eq] at checked
  obtain ⟨⟨fresh, present⟩, driven⟩ := checked
  obtain ⟨labels, last, run, ends⟩ := drive_guarded (service plain) may start moves check driven
  refine ⟨earlier, start, labels, last, reached, present, ?_, run, ends⟩
  intro thread userId ipAddress rest running
  have begun := run_started reached (fun job rest none => by cases none) running
  have none := List.all_eq_true.mp fresh _ begun
  cases none

def orderly (config : ServiceConfig) : ServiceLabel → Bool
  | .act _ (.commit writes) _ => decide (.deleteFile 1 ∉ writes) &&
      writes.all fun write => match write with
        | .setDeleted _ _ _ => config.shared.db.files.all fun row => decide (row.status = .available)
        | _ => true
  | _ => true

theorem orderly_sound (config : ServiceConfig) (label : ServiceLabel)
    (may : orderly config label = true) : Orderly 1 config label := by
  cases label with
  | act thread request answer =>
      cases request with
      | commit writes =>
          simp only [orderly, Bool.and_eq_true, decide_eq_true_eq] at may
          refine ⟨may.1, fun deletedAt linkVersion revokes row present _ => ?_⟩
          have rows := List.all_eq_true.mp may.2 _ revokes
          exact of_decide_eq_true (List.all_eq_true.mp rows row present)
      | _ => trivial
  | _ => trivial

def bothAnswered (second : Response) (labels : List ServiceLabel) (_ : ServiceConfig) : Bool :=
  labels.any (finishes (.api 1) ⟨204, .empty⟩) && labels.any (finishes (.api 2) second) &&
    labels.all fun label => match label with
      | .start thread _ => decide (thread = .api 1 ∨ thread = .api 2)
      | _ => true

theorem delete_once_second : ∃ labels last winner,
    DeletedBy smallFile labels last winner ∧ Answered smallFile labels winner deleted ∧
      Answered smallFile labels (.api 2) missing := by
  obtain ⟨earlier, start, labels, last, reached, present, idle, run, checked⟩ :=
    uploaded_reaches orderly
      (twoChecks ++ firstDeletes ++ prompts (.api 2) 1 ++ [.finish (.api 2)])
      (bothAnswered fileNotFound) (by decide +kernel)
  simp only [bothAnswered, Bool.and_eq_true] at checked
  obtain ⟨⟨first, second⟩, others⟩ := checked
  have guarded : Run (Guarded (Orderly smallFile.id) (Step (service plain))) start labels last :=
    run_mono (fun _ _ _ taken => ⟨taken.1, orderly_sound _ _ taken.2⟩) run
  have one := finishes_answered first
  have two := finishes_answered second
  obtain ⟨state, settles⟩ := delete_once reached present rfl idle guarded
  have sent : ∃ thread, Sent smallFile labels thread := by
    rcases state with untouched | ⟨winner, done⟩
    · exact absurd one (untouched.answers _ _)
    · exact ⟨winner, done.sent⟩
  obtain ⟨winner, done, answered⟩ := settles sent (by
    rintro thread ⟨job, -, member⟩
    rcases of_decide_eq_true (List.all_eq_true.mp others _ member) with rfl | rfl
    · exact ⟨_, one⟩
    · exact ⟨_, two⟩)
  exact ⟨labels, last, winner, done, answered, two⟩

/-- Both requests pass the check before either commits. -/
theorem deleted_twice : ∃ earlier start labels last,
    Run (Step (service plain)) (deployed 0) earlier start ∧ smallFile ∈ start.shared.db.files ∧
      (∀ thread userId ipAddress rest,
        start.threads thread ≠ .running (.deleteFile userId 1 ipAddress) rest) ∧
      Run (Step (service plain)) start labels last ∧
      Answered smallFile labels (.api 1) deleted ∧ Answered smallFile labels (.api 2) deleted ∧
      deletions last.shared.db 1 = 2 := by
  obtain ⟨earlier, start, labels, last, reached, present, idle, run, checked⟩ :=
    uploaded_reaches (fun _ _ => true)
      (twoChecks ++ prompts (.api 2) 2 ++ firstDeletes ++ prompts (.api 2) 5 ++ [.finish (.api 2)])
      (fun labels last => labels.any (finishes (.api 1) ⟨204, .empty⟩) &&
        labels.any (finishes (.api 2) ⟨204, .empty⟩) && decide (deletions last.shared.db 1 = 2))
      (by decide +kernel)
  simp only [Bool.and_eq_true, decide_eq_true_eq] at checked
  obtain ⟨⟨first, second⟩, count⟩ := checked
  exact ⟨earlier, start, labels, last, reached, present, idle, guarded_run run,
    finishes_answered first, finishes_answered second, count⟩

end SecureFileSystem.DeleteOnce
