import SecureFileSystem.Linearization

/-!
Crashes of a storage node. A crash keeps synced files and settled names, and
undoes at will what was not synced; what is acknowledged must survive it.
-/

namespace SecureFileSystem.CrashSafety

open Base Program Storage Transition RelyGuarantee WriteOnce ShardStore ShardCalls Linearization

variable {sha256 : Bytes → Bytes} {levels : Nat} {Called : Nat → Call → Prop}
  {written : Uuid → Bytes → Prop}

/-- Whatever a crash brings back is a whole file, written for that shard. -/
structure Recoverable (sha256 : Bytes → Bytes) (written : Uuid → Bytes → Prop) (disk : Disk) :
    Prop where
  kept : disk.kept ≤ disk.made
  temps : ∀ file target, some target ∈ disk.unsettled (.temp file) →
    target = file ∧ file < disk.files.length
  stored : ∀ id file, disk.entries (.shard id) = some file →
    ∃ data, Whole sha256 disk file data ∧ written id data
  earlier : ∀ id file, some file ∈ disk.unsettled (.shard id) →
    ∃ data, Whole sha256 disk file data ∧ written id data

theorem enter_member (disk : Disk) {name other : Name} (file : Option Nat) {value : Option Nat}
    (member : value ∈ (disk.enter name file).unsettled other) :
    value ∈ disk.unsettled other ∨ value = disk.entries other := by
  by_cases same : other = name
  · subst other
    have now : (disk.enter name file).unsettled name = disk.entries name :: disk.unsettled name :=
      Function.update_self _ _ _
    rw [now] at member
    rcases List.mem_cons.mp member with here | earlier
    · exact .inr here
    · exact .inl earlier
  · rw [enter_unsettled disk same] at member
    exact .inl member

/-- What a crash may bring back after a move was there before it. -/
theorem move_unsettled {caller : Nat} {before after : Disk}
    (move : Move sha256 Called caller before after) {name : Name} {value : Option Nat}
    (member : value ∈ after.unsettled name) :
    value ∈ before.unsettled name ∨ value = before.entries name := by
  cases move with
  | mkdir made grows bound same =>
      subst same
      exact .inl member
  | create rooted same =>
      subst same
      exact enter_member _ (some before.files.length) member
  | edit file inode changed held own unsynced creator same =>
      subst same
      exact .inl member
  | link file inode id data held synced content temp called unlogged same =>
      subst same
      cases taken : before.entries (.shard id) with
      | some source =>
          rw [link_taken caller temp taken] at member
          exact .inl member
      | none =>
          rw [link_free caller temp taken] at member
          exact enter_member before (some file) member
  | discard file inode held own same =>
      subst same
      exact enter_member before none member
  | sync same =>
      subst same
      cases member
  | «open» id called unlogged same =>
      subst same
      rw [open_recorded] at member
      exact .inl member
  | remove id called unlogged same =>
      subst same
      cases taken : before.entries (.shard id) with
      | none =>
          rw [remove_absent caller taken] at member
          exact .inl member
      | some source =>
          rw [remove_present caller taken] at member
          exact enter_member before none member

theorem move_recoverable (writes : ∀ caller id data, Called caller (.write id data) → written id data)
    {caller : Nat} {before after : Disk} (sound : Sound sha256 levels before)
    (move : Move sha256 Called caller before after)
    (recoverable : Recoverable sha256 written before) : Recoverable sha256 written after := by
  have effect := move_effect move
  constructor
  · rw [effect.kept]
    exact Nat.le_trans recoverable.kept effect.made
  · intro file target member
    rcases move_unsettled move member with earlier | now
    · obtain ⟨named, inside⟩ := recoverable.temps file target earlier
      exact ⟨named, length_grows effect inside⟩
    · obtain ⟨named, inside⟩ := sound.temps file target now.symm
      exact ⟨named, length_grows effect inside⟩
  · intro id file held
    rcases move_entries sound move (.shard id) with same | none | ⟨-, other, entry, cases⟩
    · rw [same] at held
      obtain ⟨data, whole, source⟩ := recoverable.stored id file held
      exact ⟨data, whole_kept effect whole, source⟩
    · rw [none] at held
      cases held
    · rw [entry, Option.some.injEq] at held
      subst other
      rcases cases with ⟨named, -⟩ | ⟨_, data, named, called, whole⟩
      · cases named
      · cases named
        exact ⟨data, whole_kept effect whole, writes caller id data called⟩
  · intro id file member
    rcases move_unsettled move member with earlier | now
    · obtain ⟨data, whole, source⟩ := recoverable.earlier id file earlier
      exact ⟨data, whole_kept effect whole, source⟩
    · obtain ⟨data, whole, source⟩ := recoverable.stored id file now.symm
      exact ⟨data, whole_kept effect whole, source⟩

theorem crashed_entries (disk : Disk) (crash : Crash) (name : Name) (file : Nat)
    (held : (Disk.crashed disk crash).entries name = some file) :
    disk.entries name = some file ∨ some file ∈ disk.unsettled name := by
  simp only [Disk.crashed] at held
  split at held
  · cases held
  · rw [List.getD_eq_getElem?_getD] at held
    cases found : (disk.entries name :: disk.unsettled name)[crash.choice name]? with
    | none =>
        rw [found] at held
        exact .inl held
    | some value =>
        rw [found, Option.getD_some] at held
        subst value
        rcases List.mem_cons.mp (List.mem_of_getElem? found) with here | earlier
        · exact .inl here.symm
        · exact .inr earlier

theorem crashed_files (disk : Disk) (crash : Crash) (file : Nat) :
    (Disk.crashed disk crash).files[file]? = disk.files[file]?.map fun inode =>
      if inode.synced then inode
      else { inode with content := crash.scramble file, synced := true } := by
  simp only [Disk.crashed, List.getElem?_mapIdx]

theorem crashed_whole {disk : Disk} {file : Nat} {data : Bytes} (crash : Crash)
    (whole : Whole sha256 disk file data) : Whole sha256 (Disk.crashed disk crash) file data := by
  obtain ⟨inode, held, synced, content⟩ := whole
  exact ⟨inode, by rw [crashed_files, held, Option.map_some, if_pos synced], synced, content⟩

theorem crashed_sound {disk : Disk} (crash : Crash) (sound : Sound sha256 levels disk)
    (recoverable : Recoverable sha256 written disk) :
    Sound sha256 levels (Disk.crashed disk crash) := by
  have length : (Disk.crashed disk crash).files.length = disk.files.length :=
    List.length_mapIdx
  constructor
  · exact sound.depth
  · have bound := Nat.le_trans recoverable.kept sound.made
    have made := sound.made
    simp only [Disk.crashed]
    omega
  · intro missing name
    simp only [Disk.crashed] at missing ⊢
    rw [sound.depth, if_pos missing]
  · intro file target held
    rw [length]
    rcases crashed_entries disk crash _ target held with same | earlier
    · exact sound.temps file target same
    · exact recoverable.temps file target earlier
  · intro id file held
    rcases crashed_entries disk crash _ file held with same | earlier
    · obtain ⟨data, whole, -⟩ := recoverable.stored id file same
      exact ⟨data, crashed_whole crash whole⟩
    · obtain ⟨data, whole, -⟩ := recoverable.earlier id file earlier
      exact ⟨data, crashed_whole crash whole⟩
  · exact sound.once

theorem crashed_recoverable {disk : Disk} (crash : Crash)
    (recoverable : Recoverable sha256 written disk) :
    Recoverable sha256 written (Disk.crashed disk crash) := by
  constructor
  · exact Nat.le_refl _
  · exact fun _ _ member => by cases member
  · intro id file held
    rcases crashed_entries disk crash _ file held with same | earlier
    · obtain ⟨data, whole, source⟩ := recoverable.stored id file same
      exact ⟨data, crashed_whole crash whole, source⟩
    · obtain ⟨data, whole, source⟩ := recoverable.earlier id file earlier
      exact ⟨data, crashed_whole crash whole, source⟩
  · exact fun _ _ member => by cases member

theorem crashed_untouched {thread : Nat} {disk : Disk} (crash : Crash)
    (untouched : Untouched thread disk) : Untouched thread (Disk.crashed disk crash) := by
  constructor
  · exact untouched.unlogged
  · intro file inode held
    rw [crashed_files, Option.map_eq_some_iff] at held
    obtain ⟨before, there, rfl⟩ := held
    have foreign := untouched.fileless file before there
    split
    · exact foreign
    · exact foreign

def Halted (config : NodeConfig) : Prop :=
  ∀ thread job rest, config.threads thread ≠ .running job rest

/-- Calls come one after the other, and a crash ends the one that is running. -/
def Sequenced (config : NodeConfig) : NodeLabel → Prop
  | .start _ _ => Halted config
  | .env _ => Halted config
  | _ => True

/-- A crash finds the directory and all above it durably entered, or no shard. -/
def Anchored (config : NodeConfig) : NodeLabel → Prop
  | .env _ => config.shared.kept = config.shared.levels ∨ ∀ id, config.shared.shard id = none
  | _ => True

theorem halted_steady (Called : Nat → Call → Prop) {config : NodeConfig} (halted : Halted config)
    (sound : Sound sha256 levels config.shared)
    (fresh : ∀ thread, config.threads thread = .fresh → Untouched thread config.shared) :
    Steady sha256 levels Called config :=
  ⟨⟨sound, fun thread job rest running => absurd running (halted thread job rest)⟩, fresh⟩

theorem step_recoverable (digest : ∀ data, (sha256 data).length = digestSize)
    (writes : ∀ caller id data, Called caller (.write id data) → written id data)
    {before after : NodeConfig} {label : NodeLabel} (steady : Steady sha256 levels Called before)
    (recoverable : Recoverable sha256 written before.shared)
    (taken : Step (node sha256 levels) before label after) (sequenced : Sequenced before label)
    (called : ∀ thread call, label = .start thread call → Called thread call) :
    Steady sha256 levels Called after ∧ Recoverable sha256 written after.shared ∧
      ((∀ crash, label ≠ .env crash) → Kept (contract sha256 levels Called) before label after) := by
  by_cases crashes : ∃ crash, label = .env crash
  · obtain ⟨crash, rfl⟩ := crashes
    cases taken with
    | env done =>
        cases done
        refine ⟨halted_steady Called sequenced (crashed_sound crash steady.all.inv recoverable) ?_,
          crashed_recoverable crash recoverable, fun quiet => absurd rfl (quiet crash)⟩
        exact fun thread fresh => crashed_untouched crash (steady.fresh thread fresh)
  · have quiet : ∀ crash, label ≠ .env crash := fun crash same => crashes ⟨crash, same⟩
    obtain ⟨there, kept⟩ := step_steady digest steady taken called quiet
    refine ⟨there, ?_, fun _ => kept⟩
    cases taken with
    | act at_op done => exact move_recoverable writes steady.all.inv kept recoverable
    | start idle may => exact recoverable
    | fail at_op => exact recoverable
    | finish at_ret => exact recoverable
    | env done => exact absurd rfl (quiet _)

/-- The shard is there, and no crash can bring back anything else. -/
def Stored (sha256 : Bytes → Bytes) (id : Uuid) (data : Bytes) (disk : Disk) : Prop :=
  disk.shard id = some (shardFile sha256 data) ∧ disk.unsettled (.shard id) = []

theorem sound_holds (digest : ∀ data, (sha256 data).length = digestSize) {disk : Disk}
    (sound : Sound sha256 levels disk) : ∃ store, Holds sha256 disk store := by
  refine ⟨fun id => (disk.shard id).map (·.drop digestSize), fun id => ?_⟩
  dsimp only
  cases held : disk.shard id with
  | none => rfl
  | some raw =>
      obtain ⟨file, entry, content⟩ := Option.map_eq_some_iff.mp held
      obtain ⟨data, inode, there, -, whole⟩ := sound.stored id file entry
      have bytes : raw = shardFile sha256 data := by rw [← content, content_held there, whole]
      rw [Option.map_some, Option.map_some, bytes, shardFile, ← digest data, List.drop_left]
      rfl

theorem move_removes (digest : ∀ data, (sha256 data).length = digestSize) {caller : Nat}
    {id : Uuid} {before after : Disk} (sound : Sound sha256 levels before)
    (move : Move sha256 Called caller before after)
    (removed : after.log = before.log ++ [(caller, .unlink id true)]) :
    Called caller (.delete id) := by
  obtain ⟨store, holds⟩ := sound_holds digest sound
  rcases move_serves digest sound move holds with ⟨log, -⟩ | ⟨access, next, log, calls, -⟩
  · rw [removed] at log
    simp at log
  · rw [removed, List.append_cancel_left_eq, List.cons.injEq, Prod.mk.injEq] at log
    obtain ⟨⟨-, rfl⟩, -⟩ := log
    obtain ⟨call, out, called, answers⟩ := calls
    cases call with
    | write other value => cases answers
    | read other => cases answers
    | delete other =>
        obtain ⟨rfl, -⟩ := answers
        exact called

theorem crashed_stored {disk : Disk} {id : Uuid} {data : Bytes} (crash : Crash)
    (sound : Sound sha256 levels disk) (kept : disk.kept = disk.levels)
    (stored : Stored sha256 id data disk) : Stored sha256 id data (Disk.crashed disk crash) := by
  obtain ⟨shard, settled⟩ := stored
  obtain ⟨file, entry, content⟩ := Option.map_eq_some_iff.mp shard
  obtain ⟨found, inode, held, synced, bytes⟩ := sound.stored id file entry
  have same : (Disk.crashed disk crash).entries (.shard id) = some file := by
    have there : ¬ max disk.kept (disk.made - crash.lost) < disk.levels := by omega
    simp only [Disk.crashed, if_neg there, settled, List.getD_eq_getElem?_getD]
    cases crash.choice (.shard id) with
    | zero => exact entry
    | succ index => exact entry
  obtain ⟨again, still, -, whole⟩ := crashed_whole crash ⟨inode, held, synced, bytes⟩
  constructor
  · rw [Disk.shard, same, Option.map_some, content_held still, whole, ← bytes, ← content_held held,
      content]
  · rfl

theorem step_stored (digest : ∀ data, (sha256 data).length = digestSize)
    {before after : NodeConfig} {label : NodeLabel} (steady : Steady sha256 levels Called before)
    (taken : Step (node sha256 levels) before label after) (anchored : Anchored before label)
    (kept : (∀ crash, label ≠ .env crash) → Kept (contract sha256 levels Called) before label after)
    {id : Uuid} {data : Bytes} (undeleted : ∀ thread, ¬ Called thread (.delete id))
    (stored : Stored sha256 id data before.shared) : Stored sha256 id data after.shared := by
  cases taken with
  | start idle may => exact stored
  | fail at_op => exact stored
  | finish at_ret => exact stored
  | @act mover job request next answer shared at_op done =>
      have move : Move sha256 Called mover before.shared shared := kept nofun
      rcases shard_kept steady.all.inv (move_effect move) stored.1 with ⟨same, settled⟩ | removed
      · exact ⟨same, settled stored.2⟩
      · exact absurd (move_removes digest steady.all.inv move removed) (undeleted mover)
  | env done =>
      cases done
      rcases anchored with rooted | empty
      · exact crashed_stored _ steady.all.inv rooted stored
      · have gone := empty id
        rw [stored.1] at gone
        cases gone

/-- One call runs at a time, and nothing is recorded after its own access. -/
structure Single (config : NodeConfig) : Prop where
  one : ∀ first second job rest other left, config.threads first = .running job rest →
    config.threads second = .running other left → first = second
  latest : ∀ thread job rest, config.threads thread = .running job rest →
    thread ∉ config.shared.log.map (·.1) ∨
      ∃ front access, config.shared.log = front ++ [(thread, access)] ∧
        thread ∉ front.map (·.1)

theorem halted_single {config : NodeConfig} (halted : Halted config) : Single config where
  one first _ job rest _ _ running _ := absurd running (halted first job rest)
  latest thread job rest running := absurd running (halted thread job rest)

theorem ended_running {config : NodeConfig} {thread other : Nat} {job : Call}
    {rest : Calls Outcome}
    (running : (config.set thread .ended).threads other = .running job rest) :
    other ≠ thread ∧ config.threads other = .running job rest := by
  rw [threads_set] at running
  by_cases same : other = thread
  · rw [if_pos same] at running
    cases running
  · rw [if_neg same] at running
    exact ⟨same, running⟩

theorem ended_single {config : NodeConfig} (single : Single config) (thread : Nat) :
    Single (config.set thread .ended) where
  one first second job rest other left one two :=
    single.one first second job rest other left (ended_running one).2 (ended_running two).2
  latest other job rest running := single.latest other job rest (ended_running running).2

theorem step_single {before after : NodeConfig} {label : NodeLabel}
    (steady : Steady sha256 levels Called before) (single : Single before)
    (taken : Step (node sha256 levels) before label after) (sequenced : Sequenced before label)
    (kept : (∀ crash, label ≠ .env crash) →
      Kept (contract sha256 levels Called) before label after) : Single after := by
  cases taken with
  | @start starter call idle may =>
      have only : ∀ thread job rest,
          (before.set starter (.running call ((node sha256 levels).program call))).threads thread =
            .running job rest → thread = starter := by
        intro thread job rest running
        rw [threads_set] at running
        by_contra apart
        rw [if_neg apart] at running
        exact sequenced thread job rest running
      constructor
      · intro first second job rest other left one two
        rw [only first job rest one, only second other left two]
      · intro thread job rest running
        obtain rfl := only thread job rest running
        exact .inl (steady.fresh thread (idle_fresh idle)).unlogged
  | @act mover call request next answer shared at_op done =>
      have move : Move sha256 Called mover before.shared shared := kept nofun
      have only : ∀ thread job rest,
          (before.set mover (.running call (next answer))).threads thread = .running job rest →
            thread = mover := by
        intro thread job rest running
        rw [threads_set] at running
        by_contra apart
        rw [if_neg apart] at running
        exact apart (single.one thread mover job rest call _ running at_op)
      constructor
      · intro first second job rest other left one two
        rw [only first job rest one, only second other left two]
      · intro thread job rest running
        obtain rfl := only thread job rest running
        rcases (move_effect move).log with same | ⟨access, same, unlogged⟩
        · dsimp only
          rw [same]
          exact single.latest thread call _ at_op
        · exact .inr ⟨before.shared.log, access, same, unlogged⟩
  | fail at_op => exact ended_single single _
  | finish at_ret => exact ended_single single _
  | env done => exact halted_single sequenced

/-- When nothing was recorded after a call's access, its shard has not been
removed since. -/
theorem latest_unremoved {thread : Nat} {id : Uuid} {disk : Disk}
    (latest : thread ∉ disk.log.map (·.1) ∨ ∃ front access,
      disk.log = front ++ [(thread, access)] ∧ thread ∉ front.map (·.1)) :
    ¬ Removed thread id disk := by
  rintro ⟨older, newer, other, log, member, removed⟩
  have logged : thread ∈ disk.log.map (·.1) := by
    rw [log, List.map_append]
    exact List.mem_append_left _ member
  rcases latest with unlogged | ⟨front, access, same, unlogged⟩
  · exact unlogged logged
  · rcases List.eq_nil_or_concat newer with rfl | ⟨initial, last, rfl⟩
    · cases removed
    · rw [log, List.concat_eq_append, ← List.append_assoc] at same
      obtain ⟨shorter, -⟩ := List.append_inj' same rfl
      apply unlogged
      rw [← shorter, List.map_append]
      exact List.mem_append_left _ member

abbrev Tidy (config : NodeConfig) (label : NodeLabel) : Prop :=
  Sequenced config label ∧ Anchored config label

theorem run_recoverable (digest : ∀ data, (sha256 data).length = digestSize)
    (writes : ∀ caller id data, Called caller (.write id data) → written id data)
    {before after : NodeConfig} {labels : List NodeLabel}
    (steady : Steady sha256 levels Called before)
    (recoverable : Recoverable sha256 written before.shared) (single : Single before)
    (run : Run (Guarded Tidy (Step (node sha256 levels))) before labels after)
    (called : ∀ thread call, .start thread call ∈ labels → Called thread call) :
    Steady sha256 levels Called after ∧ Recoverable sha256 written after.shared ∧
      Single after := by
  induction run with
  | refl => exact ⟨steady, recoverable, single⟩
  | @next middle after labels label ran taken ih =>
      obtain ⟨steady, recoverable, single⟩ :=
        ih fun thread call member => called thread call (List.mem_append_left _ member)
      obtain ⟨there, still, kept⟩ := step_recoverable digest writes steady recoverable taken.1
        taken.2.1 fun thread call same => called thread call
          (List.mem_append_right _ (List.mem_singleton.mpr same.symm))
      exact ⟨there, still, step_single steady single taken.1 taken.2.1 kept⟩

/-- A stored shard outlasts every call that is no deletion of it, and every crash. -/
theorem run_stored (digest : ∀ data, (sha256 data).length = digestSize)
    (writes : ∀ caller id data, Called caller (.write id data) → written id data)
    {before after : NodeConfig} {labels : List NodeLabel}
    (steady : Steady sha256 levels Called before)
    (recoverable : Recoverable sha256 written before.shared)
    (run : Run (Guarded Tidy (Step (node sha256 levels))) before labels after)
    (called : ∀ thread call, .start thread call ∈ labels → Called thread call)
    {id : Uuid} {data : Bytes} (undeleted : ∀ thread, ¬ Called thread (.delete id))
    (stored : Stored sha256 id data before.shared) :
    (Steady sha256 levels Called after ∧ Recoverable sha256 written after.shared) ∧
      Stored sha256 id data after.shared := by
  induction run with
  | refl => exact ⟨⟨steady, recoverable⟩, stored⟩
  | @next middle after labels label ran taken ih =>
      obtain ⟨⟨steady, recoverable⟩, stored⟩ :=
        ih fun thread call member => called thread call (List.mem_append_left _ member)
      obtain ⟨there, still, kept⟩ := step_recoverable digest writes steady recoverable taken.1
        taken.2.1 fun thread call same => called thread call
          (List.mem_append_right _ (List.mem_singleton.mpr same.symm))
      exact ⟨⟨there, still⟩, step_stored digest steady taken.1 taken.2.2 kept undeleted stored⟩

structure Booted (sha256 : Bytes → Bytes) (levels : Nat) (config : NodeConfig)
    (store : Store Uuid Bytes) : Prop where
  sound : Sound sha256 levels config.shared
  halted : Halted config
  fresh : ∀ thread, config.threads thread = .fresh → Untouched thread config.shared
  kept : config.shared.kept ≤ config.shared.made
  settled : ∀ name, config.shared.unsettled name = []
  holds : Holds sha256 config.shared store

def readBack (sha256 : Bytes → Bytes) (disk : Disk) (id : Uuid) : Except StorageError Bytes :=
  (alone 0 (readShard sha256 id) disk).1

/-- What was written is there whole or not at all, and is there if the write
had returned and no deletion came after it. -/
structure Survives (sha256 : Bytes → Bytes) (labels : List NodeLabel) (store : Store Uuid Bytes)
    (disk : Disk) : Prop where
  whole : ∀ id, readBack sha256 disk id = .error .shardNotFound ∨
    ∃ data, readBack sha256 disk id = .ok data ∧
      (store id = some data ∨ ∃ thread, .start thread (.write id data) ∈ labels)
  kept : ∀ id data, store id = some data → (∀ thread, .start thread (.delete id) ∉ labels) →
    readBack sha256 disk id = .ok data
  durable : ∀ first second thread id data digest,
    labels = first ++ .finish thread (.write id data) (.wrote (.ok digest)) :: second →
    (∀ other, .start other (.delete id) ∉ second) → readBack sha256 disk id = .ok data

theorem shard_reads (digest : ∀ data, (sha256 data).length = digestSize) {disk : Disk} {id : Uuid}
    {data : Bytes} (held : disk.shard id = some (shardFile sha256 data)) :
    readBack sha256 disk id = .ok data := by
  rw [readBack, (readShard_alone sha256 0 id disk).1, held]
  exact checked_shardFile digest data

/-- Every shard is absent or whole, with the bytes of one write of it. -/
theorem recoverable_reads (digest : ∀ data, (sha256 data).length = digestSize) {disk : Disk}
    (recoverable : Recoverable sha256 written disk) (id : Uuid) :
    readBack sha256 disk id = .error .shardNotFound ∨
      ∃ data, readBack sha256 disk id = .ok data ∧ written id data := by
  cases entry : disk.entries (.shard id) with
  | none =>
      left
      rw [readBack, (readShard_alone sha256 0 id disk).1, Disk.shard, entry]
      rfl
  | some file =>
      obtain ⟨data, ⟨inode, held, -, content⟩, source⟩ := recoverable.stored id file entry
      refine .inr ⟨data, shard_reads digest ?_, source⟩
      rw [Disk.shard, entry, Option.map_some, content_held held, content]

theorem booted_recoverable (digest : ∀ data, (sha256 data).length = digestSize)
    {config : NodeConfig} {store : Store Uuid Bytes} (booted : Booted sha256 levels config store)
    (source : ∀ id data, store id = some data → written id data) :
    Recoverable sha256 written config.shared where
  kept := booted.kept
  temps _ _ member := by
    rw [booted.settled] at member
    cases member
  stored id file held := by
    obtain ⟨data, inode, there, synced, content⟩ := booted.sound.stored id file held
    refine ⟨data, ⟨inode, there, synced, content⟩, source id data ?_⟩
    have same := booted.holds id
    rw [Disk.shard, held, Option.map_some, content_held there, content] at same
    cases stored : store id with
    | none =>
        rw [stored] at same
        cases same
    | some other =>
        rw [stored, Option.map_some, Option.some.injEq] at same
        have payload := congrArg (·.drop digestSize) same
        simp only [shardFile, ← digest data, List.drop_left] at payload
        rw [payload, digest data, ← digest other, List.drop_left]
  earlier _ _ member := by
    rw [booted.settled] at member
    cases member

theorem finish_stored (digest : ∀ data, (sha256 data).length = digestSize)
    {before after : NodeConfig} {thread : Nat} {id : Uuid} {data hash : Bytes}
    (steady : Steady sha256 levels Called before) (single : Single before)
    (taken : Step (node sha256 levels) before
      (.finish thread (.write id data) (.wrote (.ok hash))) after) :
    Stored sha256 id data after.shared ∧ Halted after ∧ after.shared = before.shared := by
  obtain ⟨-, same, done⟩ := step_steady digest steady taken nofun nofun
  obtain ⟨-, stored | removed⟩ := done.lasting id data hash rfl rfl
  · refine ⟨by rw [same]; exact stored, ?_, same⟩
    intro other job rest running
    cases taken with
    | finish at_ret =>
        obtain ⟨apart, ran⟩ := ended_running running
        exact apart (single.one other thread _ _ _ _ ran at_ret)
  · cases taken with
    | finish at_ret => exact absurd removed (latest_unremoved (single.latest thread _ _ at_ret))

/-- No sequence of calls loses what it has acknowledged to a crash, as long as
every crash finds the directory anchored. -/
theorem writes_survive (sha256 : Bytes → Bytes)
    (digest : ∀ data, (sha256 data).length = digestSize) (levels : Nat)
    {before after : NodeConfig} {labels : List NodeLabel} {store : Store Uuid Bytes}
    (booted : Booted sha256 levels before store)
    (run : Run (Guarded Tidy (Step (node sha256 levels))) before labels after) :
    Survives sha256 labels store after.shared := by
  let written (id : Uuid) (data : Bytes) : Prop :=
    store id = some data ∨ ∃ thread, .start thread (.write id data) ∈ labels
  have recoverable : Recoverable sha256 written before.shared :=
    booted_recoverable digest booted fun _ _ there => .inl there
  have writes : ∀ thread id data, .start thread (.write id data) ∈ labels → written id data :=
    fun thread _ _ called => .inr ⟨thread, called⟩
  have steady := halted_steady (fun thread call => .start thread call ∈ labels) booted.halted
    booted.sound booted.fresh
  constructor
  · obtain ⟨-, still, -⟩ := run_recoverable digest writes steady recoverable
      (halted_single booted.halted) run fun _ _ member => member
    exact recoverable_reads digest still
  · intro id data there undeleted
    have stored : Stored sha256 id data before.shared :=
      ⟨by rw [booted.holds, there, Option.map_some], booted.settled _⟩
    obtain ⟨-, stays⟩ := run_stored digest writes steady recoverable run
      (fun _ _ member => member) undeleted stored
    exact shard_reads digest stays.1
  · rintro first second thread id data hash parts undeleted
    obtain ⟨left, ran, runs⟩ := run_split run first _ parts
    obtain ⟨middle, taken, rest⟩ := run_uncons runs
    obtain ⟨there, still, single⟩ := run_recoverable digest writes steady recoverable
      (halted_single booted.halted) ran fun _ _ member => by
        rw [parts]
        exact List.mem_append_left _ member
    obtain ⟨stored, halted, same⟩ := finish_stored digest there single taken.1
    obtain ⟨after_finish, -⟩ := step_steady digest there taken.1 nofun nofun
    have later : ∀ thread id data, .start thread (.write id data) ∈ second → written id data := by
      intro thread id data called
      apply writes thread id data
      rw [parts]
      exact List.mem_append_right _ (List.mem_cons_of_mem _ called)
    obtain ⟨-, stays⟩ := run_stored digest later
      (halted_steady (fun thread call => .start thread call ∈ second) halted
        after_finish.all.inv after_finish.fresh)
      (by rw [same]; exact still) rest (fun _ _ member => member) undeleted stored
    exact shard_reads digest stays.1

def rootedNode : NodeConfig where
  shared := StorageNode.emptyDisk
  threads := fun _ => .fresh

def firstWrite : List NodeMove := steps 0 8 ++ [.finish 0]

def ofFirst (_ : NodeConfig) : NodeLabel → Bool
  | .act 0 _ _ => true
  | .finish 0 _ _ => true
  | _ => false

def begun (config : NodeConfig) : NodeConfig :=
  config.set 0 (.running (.write 1 [7]) (program StorageNode.smallLibrary.sha256 1 (.write 1 [7])))

def acknowledged : NodeLabel → Bool
  | .finish 0 call (.wrote (.ok _)) => decide (call = .write 1 [7])
  | _ => false

def returned (kept : Nat) (labels : List NodeLabel) (config : NodeConfig) : Bool :=
  labels.any acknowledged && (match config.threads 0 with
    | .ended => true
    | _ => false) &&
    decide (config.shared.levels = 1 ∧ config.shared.made = 1 ∧ config.shared.kept = kept)

def badCrash : Crash := ⟨1, fun _ => 0, fun _ => []⟩

/-- One write from its call to its result, then a crash that takes what it can. -/
theorem write_then_crash (config : NodeConfig) (kept : Nat)
    (fresh : ∀ thread, config.threads thread = .fresh)
    (passed : (drive (node StorageNode.smallLibrary.sha256 1) ofFirst (begun config)
      firstWrite).any (fun driven => returned kept driven.1 driven.2) = true) :
    ∃ first digest second middle,
      Run (Guarded Tidy (Step (node StorageNode.smallLibrary.sha256 1))) config
        (first ++ .finish 0 (.write 1 [7]) (.wrote (.ok digest)) :: second) middle ∧
      (∀ other, .start other (.delete 1) ∉ second) ∧ Halted middle ∧
      middle.shared.levels = 1 ∧ middle.shared.made = 1 ∧ middle.shared.kept = kept := by
  obtain ⟨labels, middle, run, checked⟩ := drive_guarded _ _ _ _ (returned kept) passed
  simp only [returned, Bool.and_eq_true, decide_eq_true_eq] at checked
  obtain ⟨⟨answered, ended⟩, disk⟩ := checked
  have starts : Run (Guarded Tidy (Step (node StorageNode.smallLibrary.sha256 1))) config
      [.start 0 (.write 1 [7])] (begun config) := by
    apply run_single
    refine ⟨.start ?_ rfl, fun thread job rest running => ?_, trivial⟩
    · rw [fresh 0]
      trivial
    · rw [fresh thread] at running
      cases running
  -- A run of the first caller alone starts nothing, so it is tidy.
  have tidy : ∀ before label after,
      Guarded (fun config label => ofFirst config label = true)
        (Step (node StorageNode.smallLibrary.sha256 1)) before label after →
      Guarded Tidy (Step (node StorageNode.smallLibrary.sha256 1)) before label after := by
    rintro before label after ⟨taken, own⟩
    refine ⟨taken, ?_⟩
    cases taken with
    | start idle may => cases own
    | act at_op done => exact ⟨trivial, trivial⟩
    | fail at_op => cases own
    | finish at_ret => exact ⟨trivial, trivial⟩
    | env done => cases own
  -- The schedule moves nobody else.
  have others : ∀ thread, thread ≠ 0 → middle.threads thread = .fresh := by
    intro thread apart
    have start : (begun config).threads thread = .fresh := by
      rw [begun, threads_set, if_neg apart, fresh thread]
    have still : ∀ before label after, before.threads thread = .fresh →
        Guarded (fun config label => ofFirst config label = true)
          (Step (node StorageNode.smallLibrary.sha256 1)) before label after →
        after.threads thread = .fresh := by
      rintro before label after still ⟨taken, own⟩
      cases taken with
      | start idle may => cases own
      | @act mover job request next answer shared at_op done =>
          match mover, own with
          | 0, _ => exact (Function.update_of_ne apart _ _).trans still
      | fail at_op => cases own
      | @finish mover job out at_ret =>
          match mover, own with
          | 0, _ => exact (Function.update_of_ne apart _ _).trans still
      | env done => cases own
    exact run_invariant still run start
  have halted : Halted middle := by
    intro thread job rest running
    by_cases first : thread = 0
    · subst thread
      rw [running] at ended
      cases ended
    · rw [others thread first] at running
      cases running
  have undeleted : ∀ other, .start other (.delete 1) ∉ labels := by
    intro other member
    obtain ⟨first, second, left, right, -, -, taken, -⟩ := run_member run member
    exact absurd taken.2 (by simp [ofFirst])
  obtain ⟨label, member, acknowledges⟩ := List.any_eq_true.mp answered
  obtain ⟨front, back, rfl⟩ := List.append_of_mem member
  match label, acknowledges with
  | .finish 0 call (.wrote (.ok digest)), same =>
      obtain rfl : call = .write 1 [7] := of_decide_eq_true same
      refine ⟨.start 0 (.write 1 [7]) :: front, digest, back, middle, ?_, ?_, halted, disk⟩
      · have whole := run_append starts (run_mono tidy run)
        simpa using whole
      · exact fun other member => undeleted other
          (List.mem_append_right _ (List.mem_cons_of_mem _ member))

theorem rootedNode_booted (sha256 : Bytes → Bytes) : Booted sha256 1 rootedNode fun _ => none where
  sound := ⟨rfl, Nat.le_refl _, fun _ _ => rfl, nofun, nofun, List.nodup_nil⟩
  halted _ _ _ := nofun
  fresh _ _ := ⟨List.not_mem_nil, nofun⟩
  kept := Nat.le_refl _
  settled _ := rfl
  holds _ := rfl

theorem newNode_booted (sha256 : Bytes → Bytes) : Booted sha256 1 newNode fun _ => none where
  sound := (newNode_rest sha256).sound
  halted := (newNode_rest sha256).idle
  fresh := (newNode_rest sha256).fresh
  kept := Nat.le_refl _
  settled _ := rfl
  holds := (newNode_rest sha256).holds

theorem writes_survive_small : ∃ labels after,
    Run (Guarded Tidy (Step (node StorageNode.smallLibrary.sha256 1))) rootedNode labels after ∧
      Survives StorageNode.smallLibrary.sha256 labels (fun _ => none) after.shared ∧
      readBack StorageNode.smallLibrary.sha256 after.shared 1 = .ok [7] := by
  obtain ⟨first, digest, second, middle, run, undeleted, halted, levels, -, kept⟩ :=
    write_then_crash rootedNode 1 (fun _ => rfl) (by decide +kernel)
  have crashed : Run (Guarded Tidy (Step (node StorageNode.smallLibrary.sha256 1))) middle
      [.env badCrash] { middle with shared := Disk.crashed middle.shared badCrash } :=
    run_single ⟨.env rfl, halted, .inl (by rw [kept, levels])⟩
  have whole := run_append run crashed
  have survives := writes_survive StorageNode.smallLibrary.sha256
    StorageNode.smallLibrary_digests 1 (rootedNode_booted _) whole
  refine ⟨_, _, whole, survives, survives.durable first (second ++ [.env badCrash]) 0 1 [7] digest
    (by simp) ?_⟩
  simpa using undeleted

/-- Nothing makes the new directory's own entry durable: the crash takes the
directory away, and with it the shard whose write has returned. -/
theorem write_lost : ∃ labels after,
    Booted StorageNode.smallLibrary.sha256 1 newNode (fun _ => none) ∧
      Run (Guarded Sequenced (Step (node StorageNode.smallLibrary.sha256 1))) newNode labels after ∧
      ¬ Survives StorageNode.smallLibrary.sha256 labels (fun _ => none) after.shared := by
  obtain ⟨first, digest, second, middle, run, undeleted, halted, levels, made, kept⟩ :=
    write_then_crash newNode 0 (fun _ => rfl) (by decide +kernel)
  have sequenced : Run (Guarded Sequenced (Step (node StorageNode.smallLibrary.sha256 1))) newNode
      (first ++ .finish 0 (.write 1 [7]) (.wrote (.ok digest)) :: second) middle :=
    run_mono (fun _ _ _ taken => ⟨taken.1, taken.2.1⟩) run
  have crashed : Run (Guarded Sequenced (Step (node StorageNode.smallLibrary.sha256 1))) middle
      [.env badCrash] { middle with shared := Disk.crashed middle.shared badCrash } :=
    run_single ⟨.env rfl, halted⟩
  refine ⟨_, _, newNode_booted _, run_append sequenced crashed, fun survives => ?_⟩
  have promised := survives.durable first (second ++ [.env badCrash]) 0 1 [7] digest (by simp)
    (by simpa using undeleted)
  have gone : (Disk.crashed middle.shared badCrash).shard 1 = none := by
    simp [Disk.shard, Disk.crashed, badCrash, levels, made, kept]
  rw [readBack, (readShard_alone _ 0 1 _).1, gone] at promised
  cases promised

end SecureFileSystem.CrashSafety
