import SecureFileSystem.DeleteOnce
import SecureFileSystem.Execution
import SecureFileSystem.Removal

/-!
Removal passes one by one: what a pass has read, heard and committed, and that
the count it returns is the number of rows it took. A pass that ends before its
commit takes none.
-/

namespace SecureFileSystem.Cleanup

open Base Database Fleet Session LifeCycle Program Transition RelyGuarantee Files Service
  Interference Conduct Guarantees Wire Objects Removal

/-! ### The parts of a pass -/

def committing (removed : List Uuid) : Async Nat :=
  .op (.commit [.deleteShards removed]) fun _ => .ret removed.length

def waiting (placed : List (Shard × StorageNode)) (handles : List Nat) : Async Nat :=
  .op (.await handles) fun replies => committing (confirmed placed replies)

def sending (placed : List (Shard × StorageNode)) : Async Nat :=
  .op (.send (removals placed)) (waiting placed)

/-- How far a pass is, and what that says of the rows it began with. -/
inductive Pass (file : File) (rows : List Shard) (thread : Tid) (labels : List ServiceLabel)
    (shared : Shared) : Async Nat → Prop
  | reading (still : shared.db.shardsOf file.id = rows) :
      Pass file rows thread labels shared (removeDeletedShards file)
  | sending (still : shared.db.shardsOf file.id = rows) {placed : List (Shard × StorageNode)}
      (found : (placed.map Prod.fst).Perm rows) : Pass file rows thread labels shared (sending placed)
  | waiting (still : shared.db.shardsOf file.id = rows) {placed : List (Shard × StorageNode)}
      (found : (placed.map Prod.fst).Perm rows) {handles : List Nat}
      (sent : handles.length = placed.length) :
      Pass file rows thread labels shared (waiting placed handles)
  | committing (still : shared.db.shardsOf file.id = rows) {placed : List (Shard × StorageNode)}
      (found : (placed.map Prod.fst).Perm rows) {handles : List Nat} {replies : List Reply}
      (heard : .act thread (.await handles) replies ∈ labels) (every : replies.length = placed.length) :
      Pass file rows thread labels shared (committing (confirmed placed replies))
  | done {placed : List (Shard × StorageNode)} (found : (placed.map Prod.fst).Perm rows)
      {handles : List Nat} {replies : List Reply}
      (heard : .act thread (.await handles) replies ∈ labels) (every : replies.length = placed.length)
      (taken : shared.db.shardsOf file.id = rows.filter (·.id ∉ confirmed placed replies)) :
      Pass file rows thread labels shared (.ret (confirmed placed replies).length)

section Steps
variable {platform : Platform} {file : File} {rows : List Shard} {thread : Tid}
  {labels : List ServiceLabel} {before after : Shared}

theorem pass_own (wf : WellFormed before) {request : Op} {resume : Res request → Async Nat}
    {answer : Res request} (done : exec thread before request answer = some after)
    (pass : Pass file rows thread labels before (.op request resume)) :
    Pass file rows thread (labels ++ [.act thread request answer]) after (resume answer) := by
  generalize same : (Prog.op request resume : Async Nat) = prog at pass
  cases pass with
  | reading still =>
      cases same
      obtain ⟨order, taken⟩ := Option.ite_none_right_eq_some.mp done
      cases taken
      exact .sending still (still ▸ placed_perm wf order)
  | sending still found =>
      cases same
      obtain ⟨range, -⟩ := send_onWire done
      have db := exec_db rfl done
      apply Pass.waiting (db ▸ still) found
      rw [range]
      simp [removals]
  | waiting still found sent =>
      cases same
      obtain ⟨flights, replied, rfl⟩ := Option.map_eq_some_iff.mp done
      have count := (awaitReplies_heard replied).1
      dsimp only
      apply Pass.committing _ found (List.mem_append_right _ List.mem_cons_self) (count.trans sent)
      exact still
  | @committing still placed found handles replies heard every =>
      cases same
      simp only [exec, Option.map_eq_some_iff] at done
      obtain ⟨db, committed, rfl⟩ := done
      cases committed
      refine .done found (List.mem_append_left _ heard) every ?_
      rw [← still]
      change (before.db.shards.filter _).filter _ = (before.db.shards.filter _).filter _
      rw [List.filter_filter, List.filter_filter]
      apply List.filter_congr
      intro row _
      exact Bool.and_comm _ _
  | done => cases same

theorem pass_other {prog : Async Nat} {more : List ServiceLabel}
    (rest : after.db.shardsOf file.id = before.db.shardsOf file.id)
    (pass : Pass file rows thread labels before prog) :
    Pass file rows thread (labels ++ more) after prog := by
  cases pass with
  | reading still => exact .reading (rest.trans still)
  | sending still found => exact .sending (rest.trans still) found
  | waiting still found sent => exact .waiting (rest.trans still) found sent
  | committing still found heard every =>
      exact .committing (rest.trans still) found (List.mem_append_left _ heard) every
  | done found heard every taken =>
      exact .done found (List.mem_append_left _ heard) every (rest.trans taken)

end Steps

/-- No other thread takes rows of the file. -/
def Alone (rows : List Shard) (thread : Tid) : ServiceLabel → Prop
  | .act moving (.commit writes) _ => moving ≠ thread → ∀ ids, .deleteShards ids ∈ writes →
      ∀ row ∈ rows, row.id ∉ ids
  | _ => True

section Runs
variable {platform : Platform} {deletion : Deletion} {file : File} {clock : Nat} {thread : Tid}

structure Deleted (platform : Platform) (deletion : Deletion) (clock : Nat)
    (config : ServiceConfig) : Prop where
  reached : ∃ labels, Run (Guarded (fun config label => deletion.allowed config.shared label)
    (Step (service platform))) (deployed clock) labels config
  revoked : Revoked deletion.fileId config.shared

theorem deleted_inv {config : ServiceConfig} (deleted : Deleted platform deletion clock config) :
    WellFormed config.shared ∧ deletion.Tracked config.shared := by
  obtain ⟨labels, run⟩ := deleted.reached
  exact ⟨(service_safe (guarded_run run)).inv, run_cleans run deleted.revoked⟩

theorem deleted_step {before after : ServiceConfig} {label : ServiceLabel}
    (deleted : Deleted platform deletion clock before)
    (taken : Guarded (fun config label => deletion.Sole config.shared label)
      (Step (service platform)) before label after) : Deleted platform deletion clock after := by
  obtain ⟨labels, run⟩ := deleted.reached
  obtain ⟨other, life⟩ := service_life (guarded_run run) taken.1
  constructor
  · refine ⟨_, .next run ⟨taken.1, fun _ => taken.2, fun fresh => ?_⟩⟩
    exact absurd deleted.revoked fresh
  · exact revoked_life life deleted.revoked

theorem deleted_run {before after : ServiceConfig} {labels : List ServiceLabel}
    (deleted : Deleted platform deletion clock before)
    (run : Run (Guarded (fun config label => deletion.Sole config.shared label)
      (Step (service platform))) before labels after) : Deleted platform deletion clock after :=
  @run_invariant _ _ _ (Deleted platform deletion clock)
    (fun _ _ _ deleted taken => deleted_step deleted taken) _ _ _ run deleted

theorem other_rows {before after : ServiceConfig} {label : ServiceLabel}
    (deleted : Deleted platform deletion clock before) (taken : Step (service platform) before label after)
    (sole : deletion.Sole before.shared label) (alone : Alone deletion.rows thread label)
    (apart : ¬ By thread label) :
    after.shared.db.shardsOf deletion.fileId = before.shared.db.shardsOf deletion.fileId := by
  obtain ⟨labels, run⟩ := deleted.reached
  obtain ⟨wf, tracked⟩ := deleted_inv deleted
  cases taken with
  | start _ _ => rfl
  | fail _ => rfl
  | finish _ => rfl
  | @env event shared done =>
      rw [Db.shardsOf, Db.shardsOf, (environment_undisturbed event done).shards]
  | @act moving job request next answer shared at_op done =>
      by_cases reads : commits request = []
      · have same : shared.db = before.shared.db := exec_db reads done
        change shared.db.shardsOf _ = _
        rw [same]
      · cases request with
        | commit writes =>
            obtain ⟨transaction, db, rfl, enabled, committed, recorded⟩ :=
              service_commit (guarded_run run) (.act at_op done)
            rw [recorded]
            refine commit_rows enabled committed tracked.used sole.1 ?_ ?_
            · exact fun row member mine => sole.2 row (tracked.rows row member mine)
            · exact fun row member mine ids discards =>
                alone apart ids discards row (tracked.rows row member mine)
        | _ => exact absurd rfl reads

/-- Whatever part of a pass has been taken. -/
theorem pass_run {before after : ServiceConfig} {labels : List ServiceLabel} {rest : Async Nat}
    (deleted : Deleted platform deletion clock before) (named : file.id = deletion.fileId)
    (run : Run (Guarded (fun config label => deletion.Sole config.shared label ∧
      Alone deletion.rows thread label) (Step (service platform))) before labels after)
    (advances : Advances thread (removeDeletedShards file) labels rest) :
    Deleted platform deletion clock after ∧
      Pass file (before.shared.db.shardsOf file.id) thread labels after.shared rest := by
  refine advances_invariant (fun labels rest config => Deleted platform deletion clock config ∧
    Pass file (before.shared.db.shardsOf file.id) thread labels config.shared rest) ?_ ?_ ?_ run
    advances
  · intro labels middle request resume answer last fits taken
    refine ⟨deleted_step fits.1 ⟨taken.1, taken.2.1⟩, ?_⟩
    cases taken.1 with
    | act at_op done => exact pass_own (deleted_inv fits.1).1 done fits.2
  · intro labels rest middle label last fits apart taken
    refine ⟨deleted_step fits.1 ⟨taken.1, taken.2.1⟩, ?_⟩
    apply pass_other _ fits.2
    rw [named]
    exact other_rows fits.1 taken.1 taken.2.1 taken.2.2 apart
  · exact ⟨deleted, .reading rfl⟩

end Runs

/-! ### What a finished pass has done -/

theorem confirmed_count {placed : List (Shard × StorageNode)} {replies : List Reply}
    (every : replies.length = placed.length) : (confirmed placed replies).length =
      replies.countP fun reply => succeeded (deleteShard reply) := by
  induction replies generalizing placed with
  | nil =>
      cases placed with
      | nil => rfl
      | cons one rest => cases every
  | cons reply others ih =>
      cases placed with
      | nil => cases every
      | cons one rest =>
          have later := ih (Nat.succ.inj every)
          unfold confirmed at later ⊢
          rw [List.zip_cons_cons, List.filterMap_cons, List.countP_cons, ← later]
          by_cases told : succeeded (deleteShard reply) = true <;> simp [told]

theorem confirmed_sublist (placed : List (Shard × StorageNode)) (replies : List Reply) :
    (confirmed placed replies).Sublist (placed.map (·.1.id)) := by
  induction placed generalizing replies with
  | nil => exact List.Sublist.refl _
  | cons one rest ih =>
      cases replies with
      | nil => exact List.nil_sublist _
      | cons reply others =>
          have later := ih others
          unfold confirmed at later ⊢
          rw [List.zip_cons_cons, List.filterMap_cons, List.map_cons]
          by_cases told : succeeded (deleteShard reply) = true
          · simpa [told] using later
          · simpa [told] using later.cons one.1.id

theorem confirmed_all {placed : List (Shard × StorageNode)} {replies : List Reply}
    (every : replies.length = placed.length)
    (told : ∀ reply ∈ replies, succeeded (deleteShard reply) = true) :
    confirmed placed replies = placed.map (·.1.id) := by
  apply (confirmed_sublist placed replies).eq_of_length
  rw [confirmed_count every, List.length_map, ← every]
  exact List.countP_eq_length.mpr told

/-- The rows that go and the rows that stay are all the rows there were. -/
theorem taken_length {rows : List Shard} {removed : List Uuid} (distinct : (rows.map (·.id)).Nodup)
    (once : removed.Nodup) (inside : ∀ id ∈ removed, id ∈ rows.map (·.id)) :
    (rows.filter (·.id ∉ removed)).length + removed.length = rows.length := by
  have taken : ((rows.filter (·.id ∈ removed)).map (·.id)).Perm removed := by
    apply (List.perm_ext_iff_of_nodup (distinct.sublist (List.filter_sublist.map _)) once).mpr
    intro id
    constructor
    · intro member
      obtain ⟨row, kept, rfl⟩ := List.mem_map.mp member
      simpa using (List.mem_filter.mp kept).2
    · intro member
      obtain ⟨row, present, rfl⟩ := List.mem_map.mp (inside id member)
      exact List.mem_map.mpr ⟨row, List.mem_filter.mpr ⟨present, by simpa using member⟩, rfl⟩
  have parts := List.length_eq_length_filter_add (l := rows) fun row => decide (row.id ∈ removed)
  have count := taken.length_eq
  rw [List.length_map] at count
  have others : rows.filter (fun row => !decide (row.id ∈ removed)) =
      rows.filter (·.id ∉ removed) := by
    apply List.filter_congr
    intro row _
    simp
  rw [others] at parts
  omega

/-- What a pass has done to the rows of the file, so far. -/
structure Passed (platform : Platform) (deletion : Deletion) (thread : Tid) (before : Shared)
    (labels : List ServiceLabel) (rest : Async Nat) (config : ServiceConfig) : Prop where
  /-- short of its commit it has taken nothing, and if it fails there it never does -/
  pending : ∀ request resume, rest = .op request resume →
    config.shared.db.shardsOf deletion.fileId = before.db.shardsOf deletion.fileId ∧
    ∀ failed, Step (service platform) config (.fail thread) failed →
      failed.shared.db.shardsOf deletion.fileId = before.db.shardsOf deletion.fileId
  count : ∀ count, rest = .ret count →
    (config.shared.db.shardsOf deletion.fileId).length + count =
      (before.db.shardsOf deletion.fileId).length ∧
    ∃ handles replies, .act thread (.await handles) replies ∈ labels ∧
      count = replies.countP fun reply => succeeded (deleteShard reply)
  whole : (∀ handles replies, .act thread (.await handles) replies ∈ labels →
      ∀ reply ∈ replies, succeeded (deleteShard reply) = true) →
    ∀ count, rest = .ret count → config.shared.db.shardsOf deletion.fileId = [] ∧
      ∀ row ∈ deletion.rows, Absent config.shared row

theorem pass_passed {platform : Platform} {deletion : Deletion} {file : File} {clock : Nat}
    {thread : Tid} {before after : ServiceConfig} {labels : List ServiceLabel} {rest : Async Nat}
    (deleted : Deleted platform deletion clock before) (named : file.id = deletion.fileId)
    (later : Deleted platform deletion clock after)
    (pass : Pass file (before.shared.db.shardsOf file.id) thread labels after.shared rest) :
    Passed platform deletion thread before.shared labels rest after := by
  obtain ⟨wf, -⟩ := deleted_inv deleted
  obtain ⟨-, tracked⟩ := deleted_inv later
  -- Before the commit the rows are what they were.
  have early : (∀ count, rest ≠ .ret count) →
      after.shared.db.shardsOf file.id = before.shared.db.shardsOf file.id →
      Passed platform deletion thread before.shared labels rest after := by
    intro unfinished same
    rw [named] at same
    constructor
    case pending =>
      rintro - - -
      refine ⟨same, fun failed step => ?_⟩
      cases step with
      | fail _ => exact same
    case count => exact fun count done => absurd done (unfinished count)
    case whole => exact fun _ count done => absurd done (unfinished count)
  cases pass with
  | reading same => exact early (fun _ done => by cases done) same
  | sending same _ => exact early (fun _ done => by cases done) same
  | waiting same _ _ => exact early (fun _ done => by cases done) same
  | committing same _ _ _ => exact early (fun _ done => by cases done) same
  | @done placed found handles replies heard every taken =>
      rw [named] at found taken
      have distinct : ((before.shared.db.shardsOf deletion.fileId).map (·.id)).Nodup :=
        wf.shards_nodup.sublist (List.filter_sublist.map _)
      have ids : (placed.map (·.1.id)).Perm
          ((before.shared.db.shardsOf deletion.fileId).map (·.id)) := by
        have mapped := found.map (·.id)
        rw [List.map_map] at mapped
        exact mapped
      constructor
      case pending =>
        intro request resume same
        cases same
      case count =>
        intro count same
        cases same
        rw [taken]
        constructor
        · apply taken_length distinct
          · exact (ids.nodup_iff.mpr distinct).sublist (confirmed_sublist placed replies)
          · intro id member
            exact ids.mem_iff.mp ((confirmed_sublist placed replies).subset member)
        · exact ⟨handles, replies, heard, confirmed_count every⟩
      case whole =>
        intro told count _
        -- All confirmed, so all taken.
        have none : after.shared.db.shardsOf deletion.fileId = [] := by
          rw [taken, confirmed_all every (told handles replies heard)]
          apply List.filter_eq_nil_iff.mpr
          intro row member
          have listed := ids.mem_iff.mpr (List.mem_map_of_mem member)
          simpa using listed
        refine ⟨none, fun row member => tracked.absent row member ?_⟩
        rcases tracked.covered row member with present | confirmed
        · have mine : row ∈ after.shared.db.shardsOf deletion.fileId :=
            List.mem_filter.mpr ⟨present, by simpa using deletion.owned row member⟩
          rw [none] at mine
          cases mine
        · exact confirmed

/-! ### Every deleted file -/

def Deletion.found (fileId : Uuid) (shared : Shared) (wf : WellFormed shared) : Deletion where
  fileId := fileId
  rows := shared.db.shardsOf fileId
  base := shared.flights.length
  owned := fun row member => by simpa using (List.mem_filter.mp member).2
  distinct := wf.shards_nodup.sublist (List.filter_sublist.map _)

section Runs
variable {platform : Platform} {fileId : Uuid} {clock : Nat} {earlier : List ServiceLabel}

/-- Before the delete the rules ask for nothing. -/
theorem fresh_allowed (deletion : Deletion) {labels : List ServiceLabel} {config : ServiceConfig}
    (run : Run (Step (service platform)) (deployed clock) labels config)
    (fresh : ¬ Revoked deletion.fileId config.shared) :
    Run (Guarded (fun config label => deletion.allowed config.shared label)
      (Step (service platform))) (deployed clock) labels config := by
  induction run with
  | refl => exact .refl
  | @next middle last labels label ran taken ih =>
      obtain ⟨other, life⟩ := service_life ran taken
      have before : ¬ Revoked deletion.fileId middle.shared :=
        fun revoked => fresh (revoked_life life revoked)
      refine .next (ih before) ⟨taken, fun revoked => absurd revoked before, fun _ => ?_⟩
      cases taken with
      | @act thread job request next answer shared at_op done =>
          cases request with
          | commit writes =>
              intro deletedAt linkVersion revokes
              have logged : shared.log = _ := @exec_log _ _ _ (.commit writes) answer done
              exact absurd ⟨_, logged ▸ List.mem_append_right _ List.mem_cons_self, deletedAt,
                linkVersion, revokes⟩ fresh
          | _ => trivial
      | _ => trivial

theorem delete_deleted {before start : ServiceConfig} {deleter : Tid} {writes : List Write}
    {deletedAt linkVersion : Nat}
    (reached : Run (Step (service platform)) (deployed clock) earlier before)
    (fresh : ¬ Revoked fileId before.shared)
    (deleted : Step (service platform) before (.act deleter (.commit writes) ()) start)
    (revokes : .setDeleted fileId deletedAt linkVersion ∈ writes) :
    Deleted platform (Deletion.found fileId before.shared (service_safe reached).inv) clock start := by
  constructor
  · refine ⟨_, .next (fresh_allowed _ reached fresh) ⟨deleted, ?_, ?_⟩⟩
    · exact fun revoked => absurd revoked fresh
    · exact fun _ _ _ _ => ⟨rfl, rfl⟩
  · cases deleted with
    | @act thread job request next answer shared at_op done =>
        have logged : shared.log = _ := @exec_log _ _ _ (.commit writes) () done
        exact ⟨_, logged ▸ List.mem_append_right _ List.mem_cons_self, deletedAt, linkVersion, revokes⟩

/-- An object that is gone stays gone. -/
theorem run_absent {deletion : Deletion} {before after : ServiceConfig} {labels : List ServiceLabel}
    {row : Shard} (member : row ∈ deletion.rows) (absent : Absent before.shared row)
    (run : Run (Guarded (fun config label => deletion.Sole config.shared label)
      (Step (service platform))) before labels after) : Absent after.shared row := by
  refine @run_invariant _ _ _ (fun config => Absent config.shared row) ?_ _ _ _ run absent
  intro first label last absent taken
  obtain ⟨step, sole⟩ := taken
  cases step with
  | start _ _ => exact absent
  | fail _ => exact absent
  | finish _ => exact absent
  | act at_op done =>
      rw [Absent, exec_objects done]
      exact absent
  | env done => exact environment_absent done sole member absent

/-- The clean-up of a deleted file, over any number of passes and whatever
becomes of them: a row goes only once its node has confirmed that the object is
gone, gone objects stay gone and are confirmed again, and each pass counts the
rows it took. -/
theorem deletion_cleaned {before start config : ServiceConfig} {deleter : Tid} {writes : List Write}
    {deletedAt linkVersion : Nat} {labels : List ServiceLabel}
    (reached : Run (Step (service platform)) (deployed clock) earlier before)
    (fresh : ¬ Revoked fileId before.shared)
    (deleted : Step (service platform) before (.act deleter (.commit writes) ()) start)
    (revokes : .setDeleted fileId deletedAt linkVersion ∈ writes)
    (run : Run (Guarded (fun config label =>
        (Deletion.found fileId before.shared (service_safe reached).inv).Sole config.shared label)
      (Step (service platform))) start labels config) :
    let deletion := Deletion.found fileId before.shared (service_safe reached).inv
    (∀ row ∈ deletion.rows, row ∈ config.shared.db.shards ∨
      (deletion.Confirmed config.shared row ∧ Absent config.shared row)) ∧
    (∀ row ∈ deletion.rows, Absent config.shared row → ∀ more later,
      Run (Guarded (fun config label => deletion.Sole config.shared label)
        (Step (service platform))) config more later → Absent later.shared row ∧
      ∀ handle flight, later.shared.flights[handle]? = some flight → flight.node = row.nodeId →
        flight.request = .delete row.id → ∃ answered response,
          (later.shared.execute platform handle flight).flights[handle]? = some answered ∧
          answered.state = .answered response ∧ confirms response = true) ∧
    ∀ thread file job next more last rest, file.id = fileId →
      config.threads thread = .running job ((removeDeletedShards file).bind next) →
      Run (Guarded (fun config label => deletion.Sole config.shared label ∧
        Alone deletion.rows thread label) (Step (service platform))) config more last →
      Advances thread (removeDeletedShards file) more rest →
        Passed platform deletion thread config.shared more rest last := by
  have after := delete_deleted reached fresh deleted revokes
  have now := deleted_run after run
  obtain ⟨-, tracked⟩ := deleted_inv now
  refine ⟨?_, ?_, ?_⟩
  · intro row member
    exact (tracked.covered row member).imp id fun confirmed =>
      ⟨confirmed, tracked.absent row member confirmed⟩
  · intro row member absent more later further
    refine ⟨run_absent member absent further, fun handle flight there _ asked => ?_⟩
    exact delete_confirmed there asked
  · intro thread file job next more last rest named _ further advances
    obtain ⟨later, pass⟩ := pass_run now named further advances
    exact pass_passed now named later pass

end Runs

/-- The request that deletes a file begins with a pass of its own. -/
theorem deleter_passes {platform : Platform} {clock : Nat} {earlier : List ServiceLabel}
    {before start : ServiceConfig} {deleter : Tid} {writes : List Write} {fileId : Uuid}
    {deletedAt linkVersion : Nat}
    (reached : Run (Step (service platform)) (deployed clock) earlier before)
    (deleted : Step (service platform) before (.act deleter (.commit writes) ()) start)
    (revokes : .setDeleted fileId deletedAt linkVersion ∈ writes) :
    ∃ job file, file.id = fileId ∧
      start.threads deleter = .running job (DeleteOnce.removing file) := by
  cases deleted with
  | @act thread job request next answer shared at_op done =>
      obtain ⟨userId, ipAddress, file, -, named, removes⟩ :=
        DeleteOnce.deletes_file reached at_op revokes
      refine ⟨job, file, named, ?_⟩
      rw [← removes]
      exact (threads_set before deleter deleter _).trans (if_pos rfl)

/-! ### A delete that leaves a row, and the worker's pass after it -/

/-- No other writer, and no fault that looks like a confirmation. -/
def gentle (thread : Tid) (config : ServiceConfig) : ServiceLabel → Bool
  | .act moving (.commit writes) _ => decide (moving = thread) && writes.all fun write =>
      match write with
      | .deleteFile _ | .repoint _ _ _ => false
      | _ => true
  | .env (.execute handle) =>
      match config.shared.flights[handle]? with
      | some flight =>
          match flight.request with
          | .put _ _ => false
          | _ => true
      | none => true
  | .env (.misreply _ _) | .env (.damage _ _ _) => false
  | _ => true

theorem gentle_sound (deletion : Deletion) {thread : Tid} (config : ServiceConfig)
    (label : ServiceLabel) (may : gentle thread config label = true) :
    deletion.Sole config.shared label ∧ Alone deletion.rows thread label := by
  cases label with
  | act moving request answer =>
      cases request with
      | commit writes =>
          simp only [gentle, Bool.and_eq_true, decide_eq_true_eq, List.all_eq_true] at may
          obtain ⟨rfl, calm⟩ := may
          refine ⟨⟨fun member => ?_, fun row _ new node member => ?_⟩, fun other => absurd rfl other⟩
          · cases calm _ member
          · cases calm _ member
      | _ => exact ⟨trivial, trivial⟩
  | env event =>
      cases event with
      | execute handle =>
          refine ⟨fun flight pending row _ _ data asked => ?_, trivial⟩
          simp only [gentle, (pending_found pending).1, asked] at may
          cases may
      | misreply _ _ => cases may
      | damage _ _ _ => cases may
      | _ => exact ⟨trivial, trivial⟩
  | _ => exact ⟨trivial, trivial⟩

def deletesFirst : List ServiceLabel → Bool
  | [.act thread (.commit writes) _] => decide (thread = .api 1 ∧ .setDeleted 1 0 2 ∈ writes)
  | _ => false

theorem deletesFirst_spec {labels : List ServiceLabel} (first : deletesFirst labels = true) :
    ∃ writes answer, labels = [.act (.api 1) (.commit writes) answer] ∧
      .setDeleted 1 0 2 ∈ writes := by
  unfold deletesFirst at first
  split at first
  · rename_i thread writes answer
    obtain ⟨rfl, revokes⟩ := of_decide_eq_true first
    exact ⟨writes, answer, rfl, revokes⟩
  · cases first

def collects : List ServiceLabel → Bool
  | [.start .worker .gcDeletedFiles, .act .worker (.selectFiles _) [file]] => decide (file.id = 1)
  | _ => false

theorem collects_spec {labels : List ServiceLabel} (second : collects labels = true) :
    ∃ condition file, labels = [.start .worker .gcDeletedFiles,
      .act .worker (.selectFiles condition) [file]] ∧ file.id = 1 := by
  unfold collects at second
  split at second
  · rename_i condition file
    exact ⟨condition, file, rfl, of_decide_eq_true second⟩
  · cases second

def confirming : ServiceLabel → Bool
  | .act _ (.await _) replies => List.all replies fun reply => succeeded (deleteShard reply)
  | .start _ _ | .fail _ | .finish _ _ _ => false
  | _ => true

theorem confirming_acts {thread : Tid} {label : ServiceLabel} (may : confirming label = true)
    (mine : By thread label) : ∃ request answer, label = .act thread request answer := by
  cases label with
  | act moving request answer =>
      obtain rfl : moving = thread := mine
      exact ⟨request, answer, rfl⟩
  | env event => exact mine.elim
  | _ => cases may

def finished (thread : Tid) (config : ServiceConfig) : Bool :=
  match config.threads thread with
  | .running _ (.ret _) => true
  | _ => false

theorem finished_ret {thread : Tid} {config : ServiceConfig} {job : Job} {rest : Async Nat}
    {change : Nat → Outcome} (done : finished thread config = true)
    (at_rest : config.threads thread = .running job (rest.bind fun out => .ret (change out))) :
    ∃ count, rest = .ret count := by
  rw [finished, at_rest] at done
  cases rest with
  | ret count => exact ⟨count, rfl⟩
  | op request resume => cases done

theorem collector_passes {platform : Platform} {before begun start : ServiceConfig} {file : File}
    {condition : Db → File → Bool}
    (starts : Step (service platform) before (.start .worker .gcDeletedFiles) begun)
    (read : Step (service platform) begun (.act .worker (.selectFiles condition) [file]) start) :
    start.threads .worker = .running .gcDeletedFiles
      ((removeDeletedShards file).bind fun _ => .ret (.returned 0)) := by
  have standing : begun.threads .worker =
      .running .gcDeletedFiles (program platform .gcDeletedFiles) := by
    cases starts with
    | start _ _ => exact (threads_set before .worker .worker _).trans (if_pos rfl)
  cases read with
  | act at_op done =>
      rw [standing] at at_op
      cases at_op
      exact (threads_set begun .worker .worker _).trans (if_pos rfl)

def rowsLeft (count : Nat) (config : ServiceConfig) : Bool :=
  decide ((config.shared.db.shardsOf 1).length = count)

/-- The delete; its own pass, in which one of two nodes answers; the worker's read of
the deleted files; and its pass, in which the other node answers. -/
def deletesLater (own second : List ServiceMove) (before : ServiceConfig) : Bool :=
  before.shared.log.all (fun entry => entry.2.all fun write =>
    match write with
    | .setDeleted _ _ _ => false
    | _ => true) && rowsLeft 2 before &&
  (drive (service plain) (gentle (.api 1)) before (prompts (.api 1) 1)).any fun one =>
    deletesFirst one.1 && rowsLeft 2 one.2 &&
  (drive (service plain) (gentle (.api 1)) one.2 own).any fun two =>
    finished (.api 1) two.2 && rowsLeft 1 two.2 &&
  (drive (service plain) (gentle .worker) two.2 [.start .worker .gcDeletedFiles,
      .act .worker prompt]).any fun three =>
    collects three.1 && rowsLeft 1 three.2 &&
  (drive (service plain) (gentle .worker) three.2 second).any fun four =>
    four.1.all confirming && finished .worker four.2

theorem deletion_cleaned_small : ∃ deletion start between again last early late,
    deletion.rows.length = 2 ∧
    Passed plain deletion (.api 1) start early (.ret 1) between ∧
    Passed plain deletion .worker again late (.ret 1) last ∧
    last.shared.db.shardsOf deletion.fileId = [] ∧
    ∀ row ∈ deletion.rows, Absent last.shared row := by
  obtain ⟨earlier, before, reached, checked⟩ := drive_reaches (service plain) (deployed 0)
    (smallUploaded ++ [.start (.api 1) (.deleteFile 9 1 none)] ++ prompts (.api 1) 2)
    (fun _ => deletesLater
      (prompts (.api 1) 2 ++ delivers [2] ++ [.env (.lose 3)] ++ prompts (.api 1) 2)
      (prompts .worker 2 ++ delivers [4] ++ prompts .worker 2)) (by decide +kernel)
  simp only [deletesLater, Bool.and_eq_true] at checked
  obtain ⟨⟨unrevoked, two⟩, driven⟩ := checked
  obtain ⟨labels, start, run, ends⟩ := drive_any driven
  simp only [Bool.and_eq_true] at ends
  obtain ⟨⟨first, still⟩, driven⟩ := ends
  obtain ⟨early, between, own, ends⟩ := drive_any driven
  simp only [Bool.and_eq_true] at ends
  obtain ⟨⟨done, left⟩, driven⟩ := ends
  obtain ⟨reads, again, read, ends⟩ := drive_any driven
  simp only [Bool.and_eq_true] at ends
  obtain ⟨⟨second, one⟩, driven⟩ := ends
  obtain ⟨late, last, pass, ends⟩ := drive_any driven
  obtain ⟨told, complete⟩ := (Bool.and_eq_true _ _).mp ends
  have fresh : ¬ Revoked 1 before.shared := by
    rintro ⟨entry, member, deletedAt, linkVersion, revokes⟩
    have none := List.all_eq_true.mp (List.all_eq_true.mp unrevoked entry member) _ revokes
    cases none
  obtain ⟨writes, answer, rfl, revokes⟩ := deletesFirst_spec first
  obtain ⟨condition, file, rfl, named⟩ := collects_spec second
  obtain ⟨_, ⟨deleted, -⟩, nothing⟩ := run_uncons run
  obtain rfl := run_empty nothing rfl
  let deletion := Deletion.found 1 before.shared (service_safe reached).inv
  have sole : ∀ thread first label last,
      Guarded (fun config label => gentle thread config label = true) (Step (service plain)) first
        label last → Guarded (fun config label => deletion.Sole config.shared label ∧
          Alone deletion.rows thread label) (Step (service plain)) first label last :=
    fun _ _ _ _ taken => ⟨taken.1, gentle_sound deletion _ _ taken.2⟩
  -- the pass of the request itself
  have beside := run_mono (sole (.api 1)) own
  obtain ⟨job, removed, same, removing⟩ := deleter_passes reached deleted revokes
  obtain ⟨-, -, passes⟩ := deletion_cleaned reached fresh deleted revokes .refl
  obtain ⟨count, firstPass⟩ : ∃ count,
      Passed plain deletion (.api 1) start.shared early (.ret count) between := by
    rcases run_tail rfl removing (guarded_run own) with ended | ⟨part, advances, at_part⟩
    · rw [finished, ended] at done
      cases done
    · obtain ⟨count, rfl⟩ := finished_ret done at_part
      exact ⟨count, passes (.api 1) removed job _ early between _ same removing beside advances⟩
  -- the pass of the worker
  have soon : Run (Guarded (fun config label => deletion.Sole config.shared label)
      (Step (service plain))) start (early ++ _) again :=
    run_append (run_mono (fun _ _ _ taken => ⟨taken.1, taken.2.1⟩) beside)
      (run_mono (fun first label last taken => ⟨taken.1, (sole .worker first label last taken).2.1⟩)
        read)
  obtain ⟨-, -, passes⟩ := deletion_cleaned reached fresh deleted revokes soon
  obtain ⟨begun, ⟨starts, -⟩, reading⟩ := run_uncons read
  obtain ⟨_, ⟨found, -⟩, nothing⟩ := run_uncons reading
  obtain rfl := run_empty nothing rfl
  have collecting := collector_passes starts found
  obtain ⟨part, advances, at_part⟩ := Execution.run_advances (guarded_run pass) collecting
    fun label member => confirming_acts (List.all_eq_true.mp told label member)
  obtain ⟨other, rfl⟩ := finished_ret complete at_part
  have secondPass := passes .worker file .gcDeletedFiles _ late last _ named collecting
    (run_mono (sole .worker) pass) advances
  have whole := secondPass.whole
    (fun _ _ member => List.all_eq_true.mp (List.all_eq_true.mp told _ member)) other rfl
  -- each pass counts one row
  have counted := (firstPass.count count rfl).1
  have further := (secondPass.count other rfl).1
  obtain rfl : count = 1 := by
    have rows : (between.shared.db.shardsOf 1).length + count =
      (start.shared.db.shardsOf 1).length := counted
    rw [of_decide_eq_true left, of_decide_eq_true still] at rows
    omega
  obtain rfl : other = 1 := by
    rw [whole.1] at further
    have rows : 0 + other = (again.shared.db.shardsOf 1).length := further
    rw [of_decide_eq_true one] at rows
    omega
  exact ⟨deletion, start.shared, between, again.shared, last, early, late, of_decide_eq_true two,
    firstPass, secondPass, whole⟩

end SecureFileSystem.Cleanup
