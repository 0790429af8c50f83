import SecureFileSystem.Guarantees

/-!
What a run can make of the past. A file goes from uploading to available to
deleted and never back, its links are revoked by the delete alone, and an id
that has gone does not return; the audit trail keeps every event.
-/

namespace SecureFileSystem.Lifetime

open Base Database Session LifeCycle Ledger Program Transition RelyGuarantee Service Interference
  Stability Guarantees

def stage : FileStatus → Nat
  | .uploading => 0
  | .available => 1
  | .deleted => 2

structure Later (old file : File) : Prop where
  same : sameFile file old
  contentType : file.contentType = old.contentType
  onward : stage old.status ≤ stage file.status
  /-- the links issued so far are revoked by the delete, and by nothing else -/
  links : file.linkVersion =
    old.linkVersion + if stage old.status < 2 ∧ stage file.status = 2 then 1 else 0

/-- What is left of an event: all of it, or all but the id of a file that has gone. -/
inductive Left (shared : Shared) (event now : AuditEvent) : Prop
  | whole (same : now = event)
  | unlinked (fileId : Uuid) (named : event.fileId = some fileId) (used : fileId ∈ used shared)
      (gone : fileId ∉ shared.db.files.map (·.id)) (same : now = { event with fileId := none })

structure Lived (before after : Shared) : Prop where
  rows : ∀ file ∈ after.db.files,
    (∃ old ∈ before.db.files, Later old file) ∨ file.id ∉ used before
  used : ∀ id ∈ used before, id ∈ LifeCycle.used after
  trail : ∀ (index : Nat) (event : AuditEvent), before.db.audit[index]? = some event →
    ∃ now, after.db.audit[index]? = some now ∧ Left after event now

def Resolved (db : Db) : Prop :=
  ∀ event ∈ db.audit, ∀ fileId, event.fileId = some fileId → fileId ∈ db.files.map (·.id)

section Files

theorem later_refl (file : File) : Later file file := by
  constructor
  case same => exact ⟨rfl, rfl, rfl, rfl, rfl, rfl, rfl, rfl⟩
  case contentType => rfl
  case onward => exact Nat.le_refl _
  case links =>
    rw [if_neg (by omega)]
    rfl

theorem later_trans {first second third : File} (left : Later first second)
    (right : Later second third) : Later first third := by
  obtain ⟨same, contentType, onward, links⟩ := left
  obtain ⟨same', contentType', onward', links'⟩ := right
  constructor
  case same =>
    obtain ⟨id, owner, name, size, checksum, data, parity, uploaded⟩ := same
    obtain ⟨id', owner', name', size', checksum', data', parity', uploaded'⟩ := same'
    exact ⟨id'.trans id, owner'.trans owner, name'.trans name, size'.trans size,
      checksum'.trans checksum, data'.trans data, parity'.trans parity, uploaded'.trans uploaded⟩
  case contentType => exact contentType'.trans contentType
  case onward => exact Nat.le_trans onward onward'
  case links =>
    -- the version is raised on the one step that comes to the last stage
    rw [links', links]
    by_cases done : stage second.status = 2
    · rw [if_neg (show ¬ (stage second.status < 2 ∧ stage third.status = 2) by omega)]
      have last : stage third.status = 2 := by
        have bound : stage third.status ≤ 2 := by cases third.status <;> decide
        omega
      simp only [done, last, and_true]
      rfl
    · rw [if_neg (show ¬ (stage first.status < 2 ∧ stage second.status = 2) by omega)]
      have bound : stage second.status ≤ 2 := by cases second.status <;> decide
      have here : stage second.status < 2 := by omega
      have there : stage first.status < 2 := by omega
      simp only [here, there, true_and]
      rfl

variable {thread : Tid} {before : Shared} {file : File}

/-- What one step can have made of a row. -/
theorem move_later (moved : FileMove thread before file) :
    (∃ old ∈ before.db.files, Later old file) ∨ file.id ∉ used before := by
  cases moved with
  | same present => exact Or.inl ⟨file, present, later_refl file⟩
  | published old present drawn pending change =>
      left
      refine ⟨old, present, ?_⟩
      subst change
      constructor
      case same => exact ⟨rfl, rfl, rfl, rfl, rfl, rfl, rfl, rfl⟩
      case contentType => rfl
      case onward =>
        rw [pending]
        exact Nat.zero_le _
      case links =>
        rw [if_neg (by rintro ⟨-, last⟩; cases last)]
        rfl
  | revoked old deletedAt linkVersion present version change =>
      left
      refine ⟨old, present, ?_⟩
      subst change
      constructor
      case same => exact ⟨rfl, rfl, rfl, rfl, rfl, rfl, rfl, rfl⟩
      case contentType => rfl
      case onward =>
        have bound : stage old.status ≤ 2 := by cases old.status <;> decide
        exact bound
      case links =>
        rcases version with ⟨available, raised⟩ | ⟨deleted, kept⟩
        · rw [available, if_pos ⟨by decide, rfl⟩]
          exact raised
        · rw [deleted, if_neg (by rintro ⟨early, -⟩; exact absurd early (by decide))]
          exact kept
  | uploaded drawn unused pending => exact Or.inr unused

end Files

section Trail
variable {db after : Db}

theorem write_resolved (write : Write) (done : db.write write = some after)
    (resolved : Resolved db) : Resolved after := by
  intro event member fileId named
  cases write with
  | insertFile file =>
      obtain ⟨-, same⟩ := Option.ite_none_right_eq_some.mp done
      cases same
      rw [List.map_append]
      exact List.mem_append_left _ (resolved event member fileId named)
  | setAvailable changed =>
      obtain ⟨-, same⟩ := Option.ite_none_right_eq_some.mp done
      cases same
      dsimp only
      rw [update_ids]
      · exact resolved event member fileId named
      · exact fun file => rfl
  | setDeleted changed deletedAt linkVersion =>
      obtain ⟨-, same⟩ := Option.ite_none_right_eq_some.mp done
      cases same
      dsimp only
      rw [update_ids]
      · exact resolved event member fileId named
      · exact fun file => rfl
  -- The foreign key clears the file id of the events as the row goes.
  | deleteFile gone =>
      cases done
      obtain ⟨old, present, rfl⟩ := List.mem_map.mp member
      by_cases here : old.fileId = some gone
      · rw [if_pos here] at named
        cases named
      · rw [if_neg here] at named
        have other : fileId ≠ gone := by
          rintro rfl
          exact here named
        obtain ⟨file, found, rfl⟩ := List.mem_map.mp (resolved old present fileId named)
        exact List.mem_map.mpr ⟨file, List.mem_filter.mpr ⟨found, decide_eq_true other⟩, rfl⟩
  | audit new =>
      obtain ⟨⟨-, known⟩, same⟩ := Option.ite_none_right_eq_some.mp done
      cases same
      rcases List.mem_append.mp member with old | last
      · exact resolved event old fileId named
      · rw [List.mem_singleton.mp last] at named
        rw [named] at known
        exact of_decide_eq_true known
  | deleteShards ids =>
      cases done
      exact resolved event member fileId named
  | setLastSeen node seen =>
      cases done
      exact resolved event member fileId named
  | setStatus node status =>
      cases done
      exact resolved event member fileId named
  | insertShards shards =>
      obtain ⟨-, same⟩ := Option.ite_none_right_eq_some.mp done
      cases same
      exact resolved event member fileId named
  | repoint old new node =>
      obtain ⟨-, same⟩ := Option.ite_none_right_eq_some.mp done
      cases same
      exact resolved event member fileId named

theorem commit_resolved (writes : List Write) (done : db.commit writes = some after)
    (resolved : Resolved db) : Resolved after := by
  induction writes generalizing db with
  | nil =>
      cases done
      exact resolved
  | cons write rest ih =>
      obtain ⟨middle, one, done⟩ := Option.bind_eq_some_iff.mp done
      exact ih done (write_resolved write one resolved)

theorem write_trail (write : Write) (done : db.write write = some after)
    (whole : ∀ fileId, write ≠ .deleteFile fileId) {index : Nat} {event : AuditEvent}
    (found : db.audit[index]? = some event) : after.audit[index]? = some event := by
  cases write with
  | deleteFile fileId => exact absurd rfl (whole fileId)
  | audit new =>
      obtain ⟨-, same⟩ := Option.ite_none_right_eq_some.mp done
      cases same
      obtain ⟨inside, -⟩ := List.getElem?_eq_some_iff.mp found
      rw [List.getElem?_append_left inside]
      exact found
  | deleteShards ids =>
      cases done
      exact found
  | setLastSeen node seen =>
      cases done
      exact found
  | setStatus node status =>
      cases done
      exact found
  | _ =>
      obtain ⟨-, same⟩ := Option.ite_none_right_eq_some.mp done
      cases same
      exact found

theorem commit_trail (writes : List Write) (done : db.commit writes = some after)
    (whole : ∀ fileId, .deleteFile fileId ∉ writes) {index : Nat} {event : AuditEvent}
    (found : db.audit[index]? = some event) : after.audit[index]? = some event := by
  induction writes generalizing db with
  | nil =>
      cases done
      exact found
  | cons write rest ih =>
      obtain ⟨middle, one, done⟩ := Option.bind_eq_some_iff.mp done
      apply ih done fun fileId member => whole fileId (List.mem_cons_of_mem _ member)
      apply write_trail write one _ found
      rintro fileId rfl
      exact whole fileId List.mem_cons_self

end Trail

section Runs
variable {platform : Platform} {clock : Nat} {first second : List ServiceLabel}
  {start before after : ServiceConfig} {label : ServiceLabel}

theorem transaction_trail {shared : Shared} (wf : WellFormed shared)
    (resolved : Resolved shared.db) {thread : Tid} {transaction : Transaction} {db : Db}
    (enabled : Enabled thread shared transaction)
    (done : shared.db.commit transaction.writes = some db) {index : Nat} {event : AuditEvent}
    (found : shared.db.audit[index]? = some event) :
    ∃ now, db.audit[index]? = some now ∧
      Left (recorded shared thread transaction db) event now := by
  cases transaction with
  | retract gone =>
      cases done
      dsimp only
      rw [List.getElem?_map, found, Option.map_some]
      refine ⟨_, rfl, ?_⟩
      by_cases here : event.fileId = some gone
      · rw [if_pos here]
        -- the file was in the table, so its id is used up
        obtain ⟨file, present, same⟩ :=
          List.mem_map.mp (resolved event (List.mem_of_getElem? found) gone here)
        have taken : gone ∈ used shared := same ▸ wf.files_used file present
        apply Left.unlinked gone here _ _ rfl
        · rw [used_recorded]
          exact List.mem_append_left _ taken
        · intro still
          obtain ⟨other, kept, named⟩ := List.mem_map.mp still
          exact absurd named (of_decide_eq_true (List.mem_filter.mp kept).2)
      · rw [if_neg here]
        exact .whole rfl
  | observe writes =>
      refine ⟨event, commit_trail writes done ?_ found, .whole rfl⟩
      intro fileId member
      exact enabled _ member
  | _ =>
      refine ⟨event, commit_trail _ done ?_ found, .whole rfl⟩
      intro fileId member
      simp [Transaction.writes] at member

theorem environment_audit {event : Event} {shared later : Shared}
    (done : environment platform shared event = some later) :
    later.db.audit = shared.db.audit ∧ later.db.files = shared.db.files := by
  refine ⟨?_, (environment_undisturbed event done).files⟩
  cases event with
  | execute handle =>
      obtain ⟨flight, -, rfl⟩ := Option.map_eq_some_iff.mp done
      unfold Shared.execute
      split <;> rfl
  | lose handle =>
      obtain ⟨flight, -, rfl⟩ := Option.map_eq_some_iff.mp done
      rfl
  | misreply handle response =>
      obtain ⟨flight, -, rfl⟩ := Option.map_eq_some_iff.mp done
      rfl
  | register node =>
      obtain ⟨-, same⟩ := Option.ite_none_right_eq_some.mp done
      cases same
      rfl
  | _ =>
      cases done
      rfl

theorem step_lived (run : Run (Step (service platform)) (deployed clock) first before)
    (resolved : Resolved before.shared.db)
    (taken : Step (service platform) before label after) :
    Lived before.shared after.shared ∧ Resolved after.shared.db := by
  obtain ⟨thread, life⟩ := service_life run taken
  have wf := (service_safe run).inv
  have lived : (∀ (index : Nat) (event : AuditEvent),
      before.shared.db.audit[index]? = some event →
        ∃ now, after.shared.db.audit[index]? = some now ∧ Left after.shared event now) →
      Lived before.shared after.shared := by
    intro trail
    constructor
    case rows => exact fun file member => move_later (life_file life file member)
    case used => exact fun id member => used_mono life member
    case trail => exact trail
  have still : after.shared.db.audit = before.shared.db.audit →
      after.shared.db.files = before.shared.db.files →
      Lived before.shared after.shared ∧ Resolved after.shared.db := by
    intro audit files
    constructor
    · apply lived
      intro index event found
      exact ⟨event, audit ▸ found, .whole rfl⟩
    · rw [Resolved, audit, files]
      exact resolved
  have step := taken
  cases taken with
  | start _ _ => exact still rfl rfl
  | fail _ => exact still rfl rfl
  | finish _ => exact still rfl rfl
  | env done => exact still (environment_audit done).1 (environment_audit done).2
  | @act moving job request more answer shared at_op done =>
      cases request with
      | commit writes =>
          obtain ⟨transaction, db, rfl, enabled, committed, same⟩ := service_commit run step
          constructor
          · apply lived
            intro index event found
            rw [same]
            exact transaction_trail wf resolved enabled committed found
          · rw [same]
            exact commit_resolved _ committed resolved
      | _ =>
          change exec moving before.shared _ answer = some shared at done
          have unchanged : shared.db = before.shared.db := exec_db rfl done
          exact still (congrArg Db.audit unchanged) (congrArg Db.files unchanged)

/-- An event that has lost its file does not get another one. -/
theorem left_trans {middle late : Shared} (lived : Lived middle late)
    {event now later : AuditEvent} (left : Left middle event now) (right : Left late now later) :
    Left late event later := by
  cases left with
  | whole same => exact same ▸ right
  | unlinked fileId named taken gone same =>
      have absent : fileId ∉ late.db.files.map (·.id) := by
        intro present
        obtain ⟨file, member, rfl⟩ := List.mem_map.mp present
        rcases lived.rows file member with ⟨old, found, later⟩ | unused
        · exact gone (List.mem_map.mpr ⟨old, found, later.same.1.symm⟩)
        · exact unused taken
      cases right with
      | whole same' =>
          exact .unlinked fileId named (lived.used fileId taken) absent (same'.trans same)
      | unlinked other named' _ _ _ =>
          rw [same] at named'
          cases named'

theorem lived_trans {early middle late : Shared} (left : Lived early middle)
    (right : Lived middle late) : Lived early late := by
  constructor
  case rows =>
    intro file member
    rcases right.rows file member with ⟨between, present, later⟩ | unused
    · rcases left.rows between present with ⟨old, found, sooner⟩ | unused
      · exact Or.inl ⟨old, found, later_trans sooner later⟩
      · right
        rw [later.same.1]
        exact unused
    · exact Or.inr fun taken => unused (left.used file.id taken)
  case used => exact fun id taken => right.used id (left.used id taken)
  case trail =>
    intro index event found
    obtain ⟨now, there, kept⟩ := left.trail index event found
    obtain ⟨later, last, kept'⟩ := right.trail index now there
    exact ⟨later, last, left_trans right kept kept'⟩

theorem lived_refl (shared : Shared) : Lived shared shared := by
  constructor
  case rows => exact fun file member => Or.inl ⟨file, member, later_refl file⟩
  case used => exact fun id taken => taken
  case trail => exact fun index event found => ⟨event, found, .whole rfl⟩

theorem run_resolved (run : Run (Step (service platform)) (deployed clock) first before) :
    Resolved before.shared.db := by
  induction run with
  | refl => exact fun event none => absurd none List.not_mem_nil
  | next ran taken ih => exact (step_lived ran ih taken).2

/-- Whatever runs on from a reachable state keeps the past of its files and of
its audit trail. -/
theorem files_live (platform : Platform) (clock : Nat) (first second : List ServiceLabel)
    (before after : ServiceConfig)
    (run : Run (Step (service platform)) (deployed clock) first before)
    (rest : Run (Step (service platform)) before second after) :
    Lived before.shared after.shared ∧ Resolved after.shared.db := by
  refine ⟨?_, run_resolved (run_append run rest)⟩
  induction rest with
  | refl => exact lived_refl before.shared
  | next ran taken ih =>
      have reached := run_append run ran
      exact lived_trans ih (step_lived reached (run_resolved reached) taken).1

end Runs

def smallDelete : List ServiceMove :=
  .start (.api 1) (.deleteFile 9 1 none) :: prompts (.api 1) 3

def statuses (config : ServiceConfig) : List FileStatus := config.shared.db.files.map (·.status)

theorem files_live_small : ∃ first second before after,
    Run (Step (service plain)) (deployed 0) first before ∧
    Run (Step (service plain)) before second after ∧ statuses before = [.available] ∧
    statuses after = [.deleted] ∧ Lived before.shared after.shared := by
  obtain ⟨first, before, run, passed⟩ := drive_reaches (service plain) (deployed 0) smallUploaded
    (fun _ config => decide (statuses config = [.available]) &&
      (drive (service plain) (fun _ _ => true) config smallDelete).any fun driven =>
        decide (statuses driven.2 = [.deleted])) (by decide +kernel)
  obtain ⟨available, deletes⟩ := Bool.and_eq_true _ _ ▸ passed
  obtain ⟨⟨second, after⟩, driven, deleted⟩ := (Option.any_eq_true _ _).mp deletes
  have rest := guarded_run (drive_run _ _ _ _ _ _ driven)
  exact ⟨first, second, before, after, run, rest, of_decide_eq_true available,
    of_decide_eq_true deleted, (files_live plain 0 first second before after run rest).1⟩

end SecureFileSystem.Lifetime
