import SecureFileSystem.Storage
import SecureFileSystem.RelyGuarantee
import SecureFileSystem.WriteOnce

/-!
Any number of calls on one shard directory at the same time, and crashes of the
node between them. A call only touches the file it has created, until that file
is synced; a shard's name only ever leads to a complete, synced file.
-/

namespace SecureFileSystem.ShardStore

open Base Program Storage Transition RelyGuarantee WriteOnce

inductive Call where
  | write (id : Uuid) (data : Bytes)
  | read (id : Uuid)
  | delete (id : Uuid)
  deriving DecidableEq

inductive Outcome where
  | wrote (result : Except StorageError Bytes)
  | bytes (result : Except StorageError Bytes)
  | deleted (removed : Bool)
  deriving DecidableEq

def program (sha256 : Bytes → Bytes) (levels : Nat) : Call → Calls Outcome
  | .write id data => do return .wrote (← writeShard sha256 levels id data)
  | .read id => do return .bytes (← readShard sha256 id)
  | .delete id => do return .deleted (← deleteShard id)

instance : (request : Op) → DecidableEq (Res request)
  | .mkdir _ => inferInstanceAs (DecidableEq (Except OsError Unit))
  | .mkstemp => inferInstanceAs (DecidableEq (Except OsError Nat))
  | .write _ _ => inferInstanceAs (DecidableEq Unit)
  | .fsync _ => inferInstanceAs (DecidableEq Unit)
  | .link _ _ => inferInstanceAs (DecidableEq (Except OsError Unit))
  | .unlink _ => inferInstanceAs (DecidableEq (Except OsError Unit))
  | .fsyncDir => inferInstanceAs (DecidableEq Unit)
  | .open _ => inferInstanceAs (DecidableEq (Except OsError Nat))
  | .read _ => inferInstanceAs (DecidableEq Bytes)

def exec (caller : Nat) (disk : Disk) (request : Op) (answer : Res request) : Option Disk :=
  if answer = (disk.perform caller request).1 then some (disk.perform caller request).2 else none

/-- What a crash makes of everything that was not synced: how many directories
of the path go, which of the earlier states of each entry comes back, and what
stands in the files. -/
structure Crash where
  lost : Nat
  choice : Name → Nat
  scramble : Nat → Bytes

def Disk.crashed (disk : Disk) (crash : Crash) : Disk :=
  let made := max disk.kept (disk.made - crash.lost)
  { disk with
    made := made
    kept := made
    files := disk.files.mapIdx fun file inode =>
      if inode.synced then inode else { inode with content := crash.scramble file, synced := true }
    entries := fun name =>
      if made < disk.levels then none
      else (disk.entries name :: disk.unsettled name).getD (crash.choice name) (disk.entries name)
    unsettled := fun _ => [] }

def node (sha256 : Bytes → Bytes) (levels : Nat) : System Disk Nat Call Crash Op Res Outcome where
  program := program sha256 levels
  starts := fun _ _ => true
  restarts := fun _ => false
  exec := exec
  env := fun disk crash => some (Disk.crashed disk crash)

abbrev NodeConfig := Config Disk Nat Call Op Res Outcome
abbrev NodeLabel := Label Nat Call Crash Op Res Outcome

/-- The operation on the map of payloads that an access stands for. -/
def event : Access → Event Uuid Bytes
  | .link id content linked => .put id (content.drop digestSize) linked
  | .open id found => .get id (found.map (·.drop digestSize))
  | .unlink id removed => .remove id removed

def Answers (sha256 : Bytes → Bytes) : Call → Outcome → Event Uuid Bytes → Prop
  | .write id data, out, .put other value stored => other = id ∧ value = data ∧
      out = .wrote (if stored then .ok (sha256 data) else .error .shardExists)
  | .read id, out, .get other found => other = id ∧
      out = .bytes (match found with
        | some data => .ok data
        | none => .error .shardNotFound)
  | .delete id, out, .remove other removed => other = id ∧ out = .deleted removed
  | _, _, _ => False

section Contract

variable (sha256 : Bytes → Bytes) (levels : Nat) (Called : Nat → Call → Prop)

def Whole (disk : Disk) (file : Nat) (data : Bytes) : Prop :=
  ∃ inode, disk.files[file]? = some inode ∧ inode.synced = true ∧
    inode.content = shardFile sha256 data

structure Sound (disk : Disk) : Prop where
  depth : disk.levels = levels
  made : disk.made ≤ levels
  /-- without the directory nothing is in it -/
  rooted : disk.made < levels → ∀ name, disk.entries name = none
  /-- a temporary name leads to the file it is named by -/
  temps : ∀ file target, disk.entries (.temp file) = some target →
    target = file ∧ file < disk.files.length
  stored : ∀ id file, disk.entries (.shard id) = some file → ∃ data, Whole sha256 disk file data
  once : (disk.log.map (·.1)).Nodup

inductive Move (caller : Nat) (before after : Disk) : Prop
  | mkdir (made : Nat) (grows : before.made ≤ made) (bound : made ≤ before.levels)
      (same : after = { before with made := made })
  | create (rooted : before.made = before.levels)
      (same : after = Disk.enter
        { before with files := before.files ++ [⟨[], false, caller⟩] }
        (.temp before.files.length) (some before.files.length))
  | edit (file : Nat) (inode changed : Inode) (held : before.files[file]? = some inode)
      (own : inode.creator = caller) (unsynced : inode.synced = false)
      (creator : changed.creator = caller)
      (same : after = { before with files := before.files.set file changed })
  | link (file : Nat) (inode : Inode) (id : Uuid) (data : Bytes)
      (held : before.files[file]? = some inode) (synced : inode.synced = true)
      (content : inode.content = shardFile sha256 data)
      (temp : before.entries (.temp file) = some file) (called : Called caller (.write id data))
      (unlogged : caller ∉ before.log.map (·.1))
      (same : after = (before.perform caller (.link file id)).2)
  | discard (file : Nat) (inode : Inode) (held : before.files[file]? = some inode)
      (own : inode.creator = caller) (same : after = before.enter (.temp file) none)
  | sync (same : after = { before with unsettled := fun _ => [] })
  | open (id : Uuid) (called : Called caller (.read id)) (unlogged : caller ∉ before.log.map (·.1))
      (same : after = (before.perform caller (.open id)).2)
  | remove (id : Uuid) (called : Called caller (.delete id))
      (unlogged : caller ∉ before.log.map (·.1))
      (same : after = (before.perform caller (.unlink (.shard id))).2)

structure Untouched (caller : Nat) (disk : Disk) : Prop where
  unlogged : caller ∉ disk.log.map (·.1)
  fileless : ∀ (file : Nat) inode, disk.files[file]? = some inode → inode.creator ≠ caller

def Clear (caller : Nat) (disk : Disk) : Prop :=
  ∀ (file : Nat) inode, disk.files[file]? = some inode → inode.creator = caller →
    disk.entries (.temp file) = none

def Logged (caller : Nat) (access : Access) (disk : Disk) : Prop :=
  (caller, access) ∈ disk.log

def Removed (caller : Nat) (id : Uuid) (disk : Disk) : Prop :=
  ∃ older newer other, disk.log = older ++ newer ∧ caller ∈ older.map (·.1) ∧
    (other, .unlink id true) ∈ newer

/-- The shard a call has linked is there, or was removed afterwards. -/
def Placed (caller : Nat) (id : Uuid) (content : Bytes) (disk : Disk) : Prop :=
  caller ∈ disk.log.map (·.1) ∧ (disk.shard id = some content ∨ Removed caller id disk)

def Lasting (caller : Nat) (id : Uuid) (content : Bytes) (disk : Disk) : Prop :=
  caller ∈ disk.log.map (·.1) ∧
    (disk.shard id = some content ∧ disk.unsettled (.shard id) = [] ∨ Removed caller id disk)

variable {sha256 : Bytes → Bytes} {levels : Nat} {Called : Nat → Call → Prop}

/-- What a move does to the files, names and records of all calls. -/
structure Effect (caller : Nat) (before after : Disk) : Prop where
  levels : after.levels = before.levels
  made : before.made ≤ after.made
  kept : after.kept = before.kept
  files : ∀ (file : Nat) inode, before.files[file]? = some inode →
    after.files[file]? = some inode ∨
      inode.creator = caller ∧ inode.synced = false ∧
        ∃ changed, after.files[file]? = some changed ∧ changed.creator = caller
  created : ∀ (file : Nat) inode, after.files[file]? = some inode →
    before.files[file]? = some inode ∨ inode.creator = caller
  temps : ∀ file, after.entries (.temp file) = before.entries (.temp file) ∨
    ∃ inode, after.files[file]? = some inode ∧ inode.creator = caller
  log : after.log = before.log ∨
    ∃ access, after.log = before.log ++ [(caller, access)] ∧ caller ∉ before.log.map (·.1)
  shards : ∀ id file, before.entries (.shard id) = some file →
    after.entries (.shard id) = some file ∧
        (before.unsettled (.shard id) = [] → after.unsettled (.shard id) = []) ∨
      after.log = before.log ++ [(caller, .unlink id true)]

theorem enter_entries (disk : Disk) {name other : Name} (apart : other ≠ name)
    (file : Option Nat) : (disk.enter name file).entries other = disk.entries other :=
  Function.update_of_ne apart _ _

theorem enter_unsettled (disk : Disk) {name other : Name} (apart : other ≠ name)
    (file : Option Nat) : (disk.enter name file).unsettled other = disk.unsettled other :=
  Function.update_of_ne apart _ _

theorem link_taken {disk : Disk} {file source : Nat} {id : Uuid} (caller : Nat)
    (temp : disk.entries (.temp file) = some file) (taken : disk.entries (.shard id) = some source) :
    disk.perform caller (.link file id) =
      (.error .fileExists, disk.record caller (.link id (disk.content file) false)) := by
  simp only [Disk.perform, temp, taken]

theorem link_free {disk : Disk} {file : Nat} {id : Uuid} (caller : Nat)
    (temp : disk.entries (.temp file) = some file) (free : disk.entries (.shard id) = none) :
    disk.perform caller (.link file id) =
      (.ok (), (disk.enter (.shard id) (some file)).record caller
        (.link id (disk.content file) true)) := by
  simp only [Disk.perform, temp, free]

theorem remove_absent {disk : Disk} {id : Uuid} (caller : Nat)
    (absent : disk.entries (.shard id) = none) :
    disk.perform caller (.unlink (.shard id)) =
      (.error .fileNotFound, disk.record caller (.unlink id false)) := by
  simp only [Disk.perform, absent]

theorem remove_present {disk : Disk} {file : Nat} {id : Uuid} (caller : Nat)
    (present : disk.entries (.shard id) = some file) :
    disk.perform caller (.unlink (.shard id)) =
      (.ok (), (disk.enter (.shard id) none).record caller (.unlink id true)) := by
  simp only [Disk.perform, present]

theorem open_recorded (disk : Disk) (caller : Nat) (id : Uuid) :
    (disk.perform caller (.open id)).2 = disk.record caller (.open id (disk.shard id)) := by
  simp only [Disk.perform, Disk.shard]
  cases disk.entries (.shard id) <;> rfl

theorem set_lookup (files : List Inode) (file other : Nat) (inode changed : Inode)
    (held : files[file]? = some inode) :
    (files.set file changed)[other]? = if other = file then some changed else files[other]? := by
  have inside : file < files.length := (List.getElem?_eq_some_iff.mp held).1
  by_cases same : other = file
  · subst other
    simp [List.getElem?_set_self inside]
  · simp [List.getElem?_set_ne (Ne.symm same), same]

theorem create_effect (caller : Nat) (before : Disk) :
    Effect caller before (Disk.enter
      { before with files := before.files ++ [⟨[], false, caller⟩] }
      (.temp before.files.length) (some before.files.length)) where
  levels := rfl
  made := Nat.le_refl _
  kept := rfl
  files file inode held := by
    left
    change (before.files ++ _)[file]? = _
    rw [List.getElem?_append_left (List.getElem?_eq_some_iff.mp held).1, held]
  created file inode held := by
    change (before.files ++ _)[file]? = _ at held
    by_cases inside : file < before.files.length
    · left
      rwa [List.getElem?_append_left inside] at held
    · right
      rw [List.getElem?_append_right (by omega), List.getElem?_singleton] at held
      split at held
      · cases held
        rfl
      · cases held
  temps file := by
    by_cases same : file = before.files.length
    · subst file
      right
      exact ⟨⟨[], false, caller⟩, by simp [Disk.enter], rfl⟩
    · left
      have apart : Name.temp file ≠ .temp before.files.length := by simpa using same
      exact enter_entries _ apart _
  log := .inl rfl
  shards id file held := by
    have apart : Name.shard id ≠ .temp before.files.length := by simp
    left
    constructor
    · rw [enter_entries _ apart, held]
    · intro settled
      rw [enter_unsettled _ apart, settled]

theorem edit_effect (caller : Nat) (before : Disk) (file : Nat) (inode changed : Inode)
    (held : before.files[file]? = some inode) (own : inode.creator = caller)
    (unsynced : inode.synced = false) (creator : changed.creator = caller) :
    Effect caller before { before with files := before.files.set file changed } where
  levels := rfl
  made := Nat.le_refl _
  kept := rfl
  files other found there := by
    dsimp only
    rw [set_lookup before.files file other inode changed held]
    by_cases same : other = file
    · subst other
      obtain rfl := Option.some.inj (held.symm.trans there)
      right
      exact ⟨own, unsynced, changed, if_pos rfl, creator⟩
    · left
      rw [if_neg same, there]
  created other found there := by
    dsimp only at there
    rw [set_lookup before.files file other inode changed held] at there
    by_cases same : other = file
    · rw [if_pos same, Option.some.injEq] at there
      right
      rw [← there, creator]
    · rw [if_neg same] at there
      exact .inl there
  temps _ := .inl rfl
  log := .inl rfl
  shards _ _ there := .inl ⟨there, id⟩

theorem discard_effect (caller : Nat) (before : Disk) (file : Nat) (inode : Inode)
    (held : before.files[file]? = some inode) (own : inode.creator = caller) :
    Effect caller before (before.enter (.temp file) none) where
  levels := rfl
  made := Nat.le_refl _
  kept := rfl
  files _ _ there := .inl there
  created _ _ there := .inl there
  temps other := by
    by_cases same : other = file
    · subst other
      exact .inr ⟨inode, held, own⟩
    · left
      have apart : Name.temp other ≠ .temp file := by simpa using same
      exact enter_entries _ apart _
  log := .inl rfl
  shards id source there := by
    have apart : Name.shard id ≠ .temp file := nofun
    left
    constructor
    · rw [enter_entries _ apart, there]
    · intro settled
      rw [enter_unsettled _ apart, settled]

theorem record_effect (caller : Nat) (before : Disk) (access : Access)
    (unlogged : caller ∉ before.log.map (·.1)) :
    Effect caller before (before.record caller access) where
  levels := rfl
  made := Nat.le_refl _
  kept := rfl
  files _ _ there := .inl there
  created _ _ there := .inl there
  temps _ := .inl rfl
  log := .inr ⟨access, rfl, unlogged⟩
  shards _ _ there := .inl ⟨there, id⟩

theorem link_effect (caller : Nat) (before : Disk) (file : Nat) (id : Uuid)
    (temp : before.entries (.temp file) = some file) (unlogged : caller ∉ before.log.map (·.1)) :
    Effect caller before (before.perform caller (.link file id)).2 := by
  cases taken : before.entries (.shard id) with
  | some source =>
      rw [link_taken caller temp taken]
      exact record_effect caller before _ unlogged
  | none =>
      rw [link_free caller temp taken]
      constructor
      · rfl
      · exact Nat.le_refl _
      · rfl
      · exact fun _ _ there => .inl there
      · exact fun _ _ there => .inl there
      · intro other
        have apart : Name.temp other ≠ .shard id := nofun
        exact .inl (enter_entries before apart (some file))
      · exact .inr ⟨_, rfl, unlogged⟩
      · intro other source there
        have apart : Name.shard other ≠ .shard id := by
          intro same
          rw [same, taken] at there
          cases there
        left
        constructor
        · exact (enter_entries before apart (some file)).trans there
        · exact (enter_unsettled before apart (some file)).trans

theorem remove_effect (caller : Nat) (before : Disk) (id : Uuid)
    (unlogged : caller ∉ before.log.map (·.1)) :
    Effect caller before (before.perform caller (.unlink (.shard id))).2 := by
  cases taken : before.entries (.shard id) with
  | none =>
      rw [remove_absent caller taken]
      exact record_effect caller before _ unlogged
  | some source =>
      rw [remove_present caller taken]
      constructor
      · rfl
      · exact Nat.le_refl _
      · rfl
      · exact fun _ _ there => .inl there
      · exact fun _ _ there => .inl there
      · intro other
        have apart : Name.temp other ≠ .shard id := nofun
        exact .inl (enter_entries before apart none)
      · exact .inr ⟨_, rfl, unlogged⟩
      · intro other file there
        by_cases same : other = id
        · subst other
          exact .inr rfl
        · have apart : Name.shard other ≠ .shard id := by simpa using same
          left
          constructor
          · exact (enter_entries before apart none).trans there
          · exact (enter_unsettled before apart none).trans

theorem move_effect {caller : Nat} {before after : Disk}
    (move : Move sha256 Called caller before after) : Effect caller before after := by
  cases move with
  | mkdir made grows bound same =>
      subst same
      exact ⟨rfl, grows, rfl, fun _ _ there => .inl there, fun _ _ there => .inl there,
        fun _ => .inl rfl, .inl rfl, fun _ _ there => .inl ⟨there, id⟩⟩
  | create rooted same =>
      subst same
      exact create_effect caller before
  | edit file inode changed held own unsynced creator same =>
      subst same
      exact edit_effect caller before file inode changed held own unsynced creator
  | link file inode id data held synced content temp called unlogged same =>
      subst same
      exact link_effect caller before file id temp unlogged
  | discard file inode held own same =>
      subst same
      exact discard_effect caller before file inode held own
  | sync same =>
      subst same
      exact ⟨rfl, Nat.le_refl _, rfl, fun _ _ there => .inl there, fun _ _ there => .inl there,
        fun _ => .inl rfl, .inl rfl, fun _ _ there => .inl ⟨there, fun _ => rfl⟩⟩
  | «open» id called unlogged same =>
      subst same
      rw [open_recorded]
      exact record_effect caller before _ unlogged
  | remove id called unlogged same =>
      subst same
      exact remove_effect caller before id unlogged

theorem whole_kept {caller file : Nat} {data : Bytes} {before after : Disk}
    (effect : Effect caller before after) (whole : Whole sha256 before file data) :
    Whole sha256 after file data := by
  obtain ⟨inode, held, synced, content⟩ := whole
  rcases effect.files file inode held with same | ⟨-, unsynced, -⟩
  · exact ⟨inode, same, synced, content⟩
  · rw [synced] at unsynced
    cases unsynced

theorem length_grows {caller : Nat} {before after : Disk} (effect : Effect caller before after)
    {file : Nat} (inside : file < before.files.length) : file < after.files.length := by
  rcases effect.files file _ (List.getElem?_eq_getElem inside) with same | ⟨-, -, changed, held, -⟩
  · exact (List.getElem?_eq_some_iff.mp same).1
  · exact (List.getElem?_eq_some_iff.mp held).1

theorem sound_made {disk : Disk} (sound : Sound sha256 levels disk) {name : Name} {file : Nat}
    (held : disk.entries name = some file) : disk.made = levels := by
  by_contra missing
  have none := sound.rooted (Nat.lt_of_le_of_ne sound.made missing) name
  rw [held] at none
  cases none

/-- A name after a move leads where it led, or nowhere, or was entered with the
directory in place. -/
theorem move_entries {caller : Nat} {before after : Disk} (sound : Sound sha256 levels before)
    (move : Move sha256 Called caller before after) (name : Name) :
    after.entries name = before.entries name ∨ after.entries name = none ∨
      before.made = levels ∧ ∃ file, after.entries name = some file ∧
        (name = .temp file ∧ file < after.files.length ∨
          ∃ id data, name = .shard id ∧ Called caller (.write id data) ∧
            Whole sha256 before file data) := by
  -- New names come from `mkstemp` and `link` only.
  cases move with
  | mkdir made grows bound same =>
      subst same
      exact .inl rfl
  | edit file inode changed held own unsynced creator same =>
      subst same
      exact .inl rfl
  | sync same =>
      subst same
      exact .inl rfl
  | create rooted same =>
      subst same
      by_cases new : name = .temp before.files.length
      · subst name
        right
        right
        rw [sound.depth] at rooted
        exact ⟨rooted, before.files.length, Function.update_self _ _ _,
          .inl ⟨rfl, by simp [Disk.enter]⟩⟩
      · exact .inl (enter_entries _ new _)
  | discard file inode held own same =>
      subst same
      by_cases gone : name = .temp file
      · subst name
        exact .inr (.inl (Function.update_self _ _ _))
      · exact .inl (enter_entries _ gone _)
  | link file inode id data held synced content temp called unlogged same =>
      subst same
      cases taken : before.entries (.shard id) with
      | some source =>
          rw [link_taken caller temp taken]
          exact .inl rfl
      | none =>
          rw [link_free caller temp taken]
          by_cases new : name = .shard id
          · subst name
            right
            right
            exact ⟨sound_made sound temp, file, Function.update_self _ _ _,
              .inr ⟨id, data, rfl, called, inode, held, synced, content⟩⟩
          · exact .inl (enter_entries before new (some file))
  | «open» id called unlogged same =>
      subst same
      rw [open_recorded]
      exact .inl rfl
  | remove id called unlogged same =>
      subst same
      cases taken : before.entries (.shard id) with
      | none =>
          rw [remove_absent caller taken]
          exact .inl rfl
      | some source =>
          rw [remove_present caller taken]
          by_cases gone : name = .shard id
          · subst name
            exact .inr (.inl (Function.update_self _ _ _))
          · exact .inl (enter_entries before gone none)

theorem move_made {caller : Nat} {before after : Disk} (sound : Sound sha256 levels before)
    (move : Move sha256 Called caller before after) : after.made ≤ levels := by
  cases move with
  | mkdir made grows bound same =>
      subst same
      rw [sound.depth] at bound
      exact bound
  | create rooted same =>
      subst same
      exact sound.made
  | edit file inode changed held own unsynced creator same =>
      subst same
      exact sound.made
  | discard file inode held own same =>
      subst same
      exact sound.made
  | sync same =>
      subst same
      exact sound.made
  | link file inode id data held synced content temp called unlogged same =>
      subst same
      cases taken : before.entries (.shard id) with
      | some source =>
          rw [link_taken caller temp taken]
          exact sound.made
      | none =>
          rw [link_free caller temp taken]
          exact sound.made
  | «open» id called unlogged same =>
      subst same
      rw [open_recorded]
      exact sound.made
  | remove id called unlogged same =>
      subst same
      cases taken : before.entries (.shard id) with
      | none =>
          rw [remove_absent caller taken]
          exact sound.made
      | some source =>
          rw [remove_present caller taken]
          exact sound.made

theorem move_sound {caller : Nat} {before after : Disk} (sound : Sound sha256 levels before)
    (move : Move sha256 Called caller before after) : Sound sha256 levels after := by
  have effect := move_effect move
  constructor
  · rw [effect.levels, sound.depth]
  · exact move_made sound move
  · intro missing name
    have before_missing := Nat.lt_of_le_of_lt effect.made missing
    rcases move_entries sound move name with same | none | ⟨rooted, -⟩
    · rw [same, sound.rooted before_missing name]
    · exact none
    · omega
  · intro file target held
    rcases move_entries sound move (.temp file) with same | none | ⟨-, other, entry, cases⟩
    · rw [same] at held
      obtain ⟨named, inside⟩ := sound.temps file target held
      exact ⟨named, length_grows effect inside⟩
    · rw [none] at held
      cases held
    · rw [entry, Option.some.injEq] at held
      subst target
      rcases cases with ⟨named, inside⟩ | ⟨id, data, shard, -⟩
      · cases named
        exact ⟨rfl, inside⟩
      · cases shard
  · intro id file held
    rcases move_entries sound move (.shard id) with same | none | ⟨-, other, entry, cases⟩
    · rw [same] at held
      obtain ⟨data, whole⟩ := sound.stored id file held
      exact ⟨data, whole_kept effect whole⟩
    · rw [none] at held
      cases held
    · rw [entry, Option.some.injEq] at held
      subst file
      rcases cases with ⟨named, -⟩ | ⟨_, data, -, -, whole⟩
      · cases named
      · exact ⟨data, whole_kept effect whole⟩
  · rcases effect.log with same | ⟨access, same, unlogged⟩
    · rw [same]
      exact sound.once
    · rw [same, List.map_append]
      exact sound.once.append (List.nodup_singleton _) (by simpa using unlogged)

end Contract

end SecureFileSystem.ShardStore
