import SecureFileSystem.Program
import SecureFileSystem.Base

/-!
`storage_node/storage.py`: the on-disk shard store, as programs over the calls
it makes to the file system. A file's number stands for its descriptor, and
names its temporary entry; the disk keeps what a crash may still undo.
-/

namespace SecureFileSystem.Storage

open Base Program

/-- The entries of `shard_dir`: shards by their canonical id, and the unique
names `mkstemp` makes. -/
inductive Name where
  | shard (id : Uuid)
  | temp (file : Nat)
  deriving DecidableEq

inductive OsError where
  | fileExists
  | fileNotFound
  deriving DecidableEq

structure Inode where
  content : Bytes
  /-- nothing was written since the last `fsync` -/
  synced : Bool
  /-- the call that created it -/
  creator : Nat
  deriving DecidableEq

inductive Access where
  | link (id : Uuid) (content : Bytes) (linked : Bool)
  | open (id : Uuid) (found : Option Bytes)
  | unlink (id : Uuid) (removed : Bool)
  deriving DecidableEq

structure Disk where
  /-- the directories on the path of `shard_dir`, itself included -/
  levels : Nat
  /-- how many of them exist -/
  made : Nat
  /-- how many of them no crash undoes -/
  kept : Nat
  files : List Inode
  entries : Name → Option Nat
  /-- what else a crash may leave in place of an entry -/
  unsettled : Name → List (Option Nat)
  /-- accesses to shards, oldest first -/
  log : List (Nat × Access)

inductive Op where
  /-- `os.mkdir` of the first so many components of the path -/
  | mkdir (depth : Nat)
  | mkstemp
  | write (file : Nat) (data : Bytes)
  | fsync (file : Nat)
  /-- `os.link` of a temporary file to the name of a shard -/
  | link (file : Nat) (id : Uuid)
  | unlink (name : Name)
  /-- open the directory, `fsync` it, close it -/
  | fsyncDir
  | open (id : Uuid)
  | read (file : Nat)

@[reducible] def Res : Op → Type
  | .mkdir _ => Except OsError Unit
  | .mkstemp => Except OsError Nat
  | .write _ _ => Unit
  | .fsync _ => Unit
  | .link _ _ => Except OsError Unit
  | .unlink _ => Except OsError Unit
  | .fsyncDir => Unit
  | .open _ => Except OsError Nat
  | .read _ => Bytes

abbrev Calls (Out : Type) := Prog Op Res Out

namespace Disk

def content (disk : Disk) (file : Nat) : Bytes := (disk.files[file]?.map (·.content)).getD []

def shard (disk : Disk) (id : Uuid) : Option Bytes := (disk.entries (.shard id)).map disk.content

def record (disk : Disk) (caller : Nat) (access : Access) : Disk :=
  { disk with log := disk.log ++ [(caller, access)] }

/-- An entry changes; until the directory is synced a crash may bring back what
was there before. -/
def enter (disk : Disk) (name : Name) (file : Option Nat) : Disk :=
  { disk with
    entries := Function.update disk.entries name file
    unsettled := Function.update disk.unsettled name
      (disk.entries name :: disk.unsettled name) }

def change (disk : Disk) (file : Nat) (update : Inode → Inode) : Disk :=
  { disk with files := disk.files.modify file update }

def perform (caller : Nat) (disk : Disk) : (request : Op) → Res request × Disk
  | .mkdir depth =>
      if depth ≤ disk.made then (.error .fileExists, disk)
      else if depth = disk.made + 1 then (.ok (), { disk with made := depth })
      else (.error .fileNotFound, disk)
  | .mkstemp =>
      if disk.made < disk.levels then (.error .fileNotFound, disk)
      else
        let file := disk.files.length
        (.ok file,
          enter { disk with files := disk.files ++ [⟨[], false, caller⟩] } (.temp file) (some file))
  | .write file data =>
      ((), disk.change file fun inode =>
        { inode with content := inode.content ++ data, synced := false })
  | .fsync file => ((), disk.change file fun inode => { inode with synced := true })
  | .link file id =>
      match disk.entries (.temp file), disk.entries (.shard id) with
      | none, _ => (.error .fileNotFound, disk)
      | some source, some _ =>
          (.error .fileExists, disk.record caller (.link id (disk.content source) false))
      | some source, none =>
          (.ok (), (disk.enter (.shard id) (some source)).record caller
            (.link id (disk.content source) true))
  | .unlink (.temp file) =>
      match disk.entries (.temp file) with
      | none => (.error .fileNotFound, disk)
      | some _ => (.ok (), disk.enter (.temp file) none)
  | .unlink (.shard id) =>
      match disk.entries (.shard id) with
      | none => (.error .fileNotFound, disk.record caller (.unlink id false))
      | some _ => (.ok (), (disk.enter (.shard id) none).record caller (.unlink id true))
  | .fsyncDir => ((), { disk with unsettled := fun _ => [] })
  | .open id =>
      match disk.entries (.shard id) with
      | none => (.error .fileNotFound, disk.record caller (.open id none))
      | some file => (.ok file, disk.record caller (.open id (some (disk.content file))))
  | .read file => (disk.content file, disk)

end Disk

def mkdir (depth : Nat) : Calls (Except OsError Unit) := Prog.perform (Op.mkdir depth)
def mkstemp : Calls (Except OsError Nat) := Prog.perform Op.mkstemp
def write (file : Nat) (data : Bytes) : Calls Unit := Prog.perform (Op.write file data)
def fsync (file : Nat) : Calls Unit := Prog.perform (Op.fsync file)
def link (file : Nat) (id : Uuid) : Calls (Except OsError Unit) := Prog.perform (Op.link file id)
def unlink (name : Name) : Calls (Except OsError Unit) := Prog.perform (Op.unlink name)
def fsyncDir : Calls Unit := Prog.perform Op.fsyncDir
def openShard (id : Uuid) : Calls (Except OsError Nat) := Prog.perform (Op.open id)
def read (file : Nat) : Calls Bytes := Prog.perform (Op.read file)

/-- `ShardExistsError`, `ShardNotFoundError`, `ShardCorruptedError`, and any
`OSError` that is not caught. -/
inductive StorageError where
  | shardExists
  | shardNotFound
  | shardCorrupted
  | osError (error : OsError)
  deriving DecidableEq

def digestSize : Nat := 32

def mkdirParents : Nat → Calls Unit
  | 0 => return ()
  | depth + 1 => do
      match ← mkdir (depth + 1) with
      | .error .fileNotFound => do
          mkdirParents depth
          let _ ← mkdir (depth + 1)
          return ()
      | _ => return ()

/-- What a shard's file holds: the raw digest, then the payload. -/
def shardFile (sha256 : Bytes → Bytes) (data : Bytes) : Bytes := sha256 data ++ data

def writeShard (sha256 : Bytes → Bytes) (levels : Nat) (id : Uuid) (data : Bytes) :
    Calls (Except StorageError Bytes) := do
  mkdirParents levels
  match ← mkstemp with
  | .error error => return .error (.osError error)
  | .ok tmp => do
      write tmp (sha256 data)
      write tmp data
      fsync tmp
      -- `link` fails if the target exists, giving atomic create-if-absent.
      let linked ← link tmp id
      let _ ← unlink (.temp tmp)
      match linked with
      | .error .fileExists => return .error .shardExists
      | .error .fileNotFound => return .error (.osError .fileNotFound)
      | .ok _ => do
          fsyncDir
          return .ok (sha256 data)

def checked (sha256 : Bytes → Bytes) (raw : Bytes) : Except StorageError Bytes :=
  let stored := raw.take digestSize
  let data := raw.drop digestSize
  if stored.length ≠ digestSize ∨ sha256 data ≠ stored then .error .shardCorrupted else .ok data

def readShard (sha256 : Bytes → Bytes) (id : Uuid) : Calls (Except StorageError Bytes) := do
  match ← openShard id with
  | .error _ => return .error .shardNotFound
  | .ok file => do
      let raw ← read file
      return checked sha256 raw

def deleteShard (id : Uuid) : Calls Bool := do
  match ← unlink (.shard id) with
  | .error _ => return false
  | .ok _ => do
      fsyncDir
      return true

def alone (caller : Nat) {Out : Type} : Calls Out → Disk → Out × Disk
  | .ret out, disk => (out, disk)
  | .op request next, disk =>
      alone caller (next (disk.perform caller request).1) (disk.perform caller request).2

theorem alone_bind (caller : Nat) {Mid Out : Type} (first : Calls Mid) (rest : Mid → Calls Out)
    (disk : Disk) :
    alone caller (first.bind rest) disk =
      alone caller (rest (alone caller first disk).1) (alone caller first disk).2 := by
  induction first generalizing disk with
  | ret out => rfl
  | op request next ih => exact ih _ _

/-- Entries lead to files, no name that `mkstemp` has yet to make is taken, and
without the directory there are none. -/
structure Disk.Valid (disk : Disk) : Prop where
  made : disk.made ≤ disk.levels
  known : ∀ name file, disk.entries name = some file → file < disk.files.length
  fresh : ∀ file, disk.files.length ≤ file → disk.entries (.temp file) = none
  rooted : disk.made < disk.levels → ∀ name, disk.entries name = none

theorem mkdirParents_alone (caller depth : Nat) (disk : Disk) :
    alone caller (mkdirParents depth) disk = ((), { disk with made := max disk.made depth }) := by
  induction depth generalizing disk with
  | zero => simp [mkdirParents, alone]
  | succ depth ih =>
      unfold mkdirParents
      rw [Prog.bind_eq, alone_bind]
      by_cases there : depth + 1 ≤ disk.made
      · have first : alone caller (mkdir (depth + 1)) disk = (.error .fileExists, disk) := by
          simp [mkdir, Prog.perform, alone, Disk.perform, there]
        rw [first, Nat.max_eq_left there]
        rfl
      · by_cases next : depth = disk.made
        · subst next
          have first : alone caller (mkdir (disk.made + 1)) disk =
              (.ok (), { disk with made := disk.made + 1 }) := by
            have above : ¬ disk.made + 1 ≤ disk.made := by omega
            simp only [mkdir, Prog.perform, alone, Disk.perform, if_neg above, if_true]
          rw [first, Nat.max_eq_right (Nat.le_succ disk.made)]
          rfl
        · have first : alone caller (mkdir (depth + 1)) disk = (.error .fileNotFound, disk) := by
            have far : ¬ depth + 1 = disk.made + 1 := by omega
            simp only [mkdir, Prog.perform, alone, Disk.perform, if_neg there, if_neg far]
          have made : max disk.made depth = depth := by omega
          have both : max disk.made (depth + 1) = depth + 1 := by omega
          have above : ¬ depth + 1 ≤ depth := by omega
          rw [first]
          dsimp only
          rw [Prog.bind_eq, alone_bind, ih, made, both]
          simp only [mkdir, Prog.perform, Prog.bind_eq, Prog.op_bind, Prog.ret_bind, Prog.pure_eq,
            alone, Disk.perform, if_neg above, if_true]

theorem alone_op (caller : Nat) {Out : Type} (request : Op) (next : Res request → Calls Out)
    (disk : Disk) :
    alone caller (.op request next) disk =
      alone caller (next (disk.perform caller request).1) (disk.perform caller request).2 := rfl

def Disk.prepared (disk : Disk) (caller : Nat) (content : Bytes) : Disk :=
  Disk.enter { disk with
    made := disk.levels
    files := disk.files ++ [⟨content, true, caller⟩] }
    (.temp disk.files.length) (some disk.files.length)

def publish (tmp : Nat) (id : Uuid) (digest : Bytes) : Calls (Except StorageError Bytes) := do
  let linked ← link tmp id
  let _ ← unlink (.temp tmp)
  match linked with
  | .error .fileExists => return .error .shardExists
  | .error .fileNotFound => return .error (.osError .fileNotFound)
  | .ok _ => do
      fsyncDir
      return .ok digest

theorem writeShard_prepared (sha256 : Bytes → Bytes) (caller : Nat) (id : Uuid) (data : Bytes)
    (disk : Disk) (valid : disk.Valid) :
    alone caller (writeShard sha256 disk.levels id data) disk =
      alone caller (publish disk.files.length id (sha256 data))
        (disk.prepared caller (shardFile sha256 data)) := by
  have last : ∀ (files : List Inode) (inode : Inode) (update : Inode → Inode),
      (files ++ [inode]).modify files.length update = files ++ [update inode] := by
    intro files inode update
    rw [List.modify_eq_take_drop]
    simp
  unfold writeShard
  rw [Prog.bind_eq, alone_bind, mkdirParents_alone, Nat.max_eq_right valid.made]
  simp only [mkstemp, write, fsync, Prog.bind_eq, Prog.perform_bind, alone_op, Disk.perform,
    Nat.lt_irrefl, if_false, Disk.change, Disk.enter, last, List.nil_append]
  rfl

theorem prepared_shard (disk : Disk) (caller : Nat) (content : Bytes) (valid : disk.Valid) :
    (disk.prepared caller content).shard = disk.shard := by
  funext id
  unfold Disk.shard Disk.prepared Disk.enter
  simp only [ne_eq, reduceCtorEq, not_false_eq_true, Function.update_of_ne]
  cases entry : disk.entries (.shard id) with
  | none => rfl
  | some file =>
      have known := valid.known _ file entry
      simp [Disk.content, List.getElem?_append_left known]

theorem publish_free (caller : Nat) (id : Uuid) (digest : Bytes) (disk : Disk) (tmp source : Nat)
    (temp : disk.entries (.temp tmp) = some source) (free : disk.entries (.shard id) = none) :
    (alone caller (publish tmp id digest) disk).1 = .ok digest ∧
      (alone caller (publish tmp id digest) disk).2.shard =
        Function.update disk.shard id (some (disk.content source)) := by
  have kept : Function.update disk.entries (.shard id) (some source) (.temp tmp) = some source := by
    rw [Function.update_of_ne (by simp), temp]
  have run : alone caller (publish tmp id digest) disk =
      (.ok digest, { (((disk.enter (.shard id) (some source)).record caller
        (.link id (disk.content source) true)).enter (.temp tmp) none) with
          unsettled := fun _ => [] }) := by
    simp only [publish, link, unlink, fsyncDir, Prog.bind_eq, Prog.perform_bind, alone_op,
      Disk.perform, temp, free, Disk.record, Disk.enter, kept]
    rfl
  rw [run]
  constructor
  · rfl
  · funext other
    by_cases same : other = id
    · subst other
      simp [Disk.shard, Disk.enter, Disk.record, Disk.content]
    · have apart : Name.shard other ≠ .shard id := by simpa using same
      simp only [Disk.shard, Disk.enter, Disk.record, Function.update_of_ne same, ne_eq, apart,
        not_false_eq_true, Function.update_of_ne, reduceCtorEq]
      rfl

theorem publish_taken (caller : Nat) (id : Uuid) (digest : Bytes) (disk : Disk)
    (tmp source file : Nat) (temp : disk.entries (.temp tmp) = some source)
    (taken : disk.entries (.shard id) = some file) :
    (alone caller (publish tmp id digest) disk).1 = .error .shardExists ∧
      (alone caller (publish tmp id digest) disk).2.shard = disk.shard := by
  have run : alone caller (publish tmp id digest) disk = (.error .shardExists,
      (disk.record caller (.link id (disk.content source) false)).enter (.temp tmp) none) := by
    simp only [publish, link, unlink, Prog.bind_eq, Prog.perform_bind, alone_op, Disk.perform,
      temp, taken, Disk.record]
    rfl
  rw [run]
  constructor
  · rfl
  · funext other
    simp only [Disk.shard, Disk.enter, Disk.record, ne_eq, reduceCtorEq, not_false_eq_true,
      Function.update_of_ne]
    rfl

/-- A new shard is stored whole; a known id is refused. -/
theorem writeShard_alone (sha256 : Bytes → Bytes) (caller : Nat) (id : Uuid) (data : Bytes)
    (disk : Disk) (valid : disk.Valid) :
    (disk.shard id = none →
      (alone caller (writeShard sha256 disk.levels id data) disk).1 = .ok (sha256 data) ∧
      (alone caller (writeShard sha256 disk.levels id data) disk).2.shard =
        Function.update disk.shard id (some (shardFile sha256 data))) ∧
    (disk.shard id ≠ none →
      (alone caller (writeShard sha256 disk.levels id data) disk).1 = .error .shardExists ∧
      (alone caller (writeShard sha256 disk.levels id data) disk).2.shard = disk.shard) := by
  rw [writeShard_prepared sha256 caller id data disk valid]
  have same := prepared_shard disk caller (shardFile sha256 data) valid
  have source : (disk.prepared caller (shardFile sha256 data)).entries
      (.temp disk.files.length) = some disk.files.length := Function.update_self _ _ _
  have content : (disk.prepared caller (shardFile sha256 data)).content disk.files.length =
      shardFile sha256 data := by simp [Disk.content, Disk.prepared, Disk.enter]
  rw [← same]
  constructor
  · intro absent
    have free := Option.map_eq_none_iff.mp absent
    have stored := publish_free caller id (sha256 data) _ _ _ source free
    rwa [content] at stored
  · intro present
    obtain ⟨raw, held⟩ := Option.ne_none_iff_exists'.mp present
    obtain ⟨file, taken, -⟩ := Option.map_eq_some_iff.mp held
    exact publish_taken caller id (sha256 data) _ _ _ file source taken

theorem readShard_alone (sha256 : Bytes → Bytes) (caller : Nat) (id : Uuid) (disk : Disk) :
    (alone caller (readShard sha256 id) disk).1 =
        (match disk.shard id with
          | none => .error .shardNotFound
          | some raw => checked sha256 raw) ∧
      (alone caller (readShard sha256 id) disk).2.shard = disk.shard := by
  unfold Disk.shard
  cases entry : disk.entries (.shard id) with
  | none =>
      simp only [readShard, openShard, Prog.bind_eq, Prog.perform_bind, alone_op, Disk.perform,
        entry]
      exact ⟨rfl, rfl⟩
  | some file =>
      simp only [readShard, openShard, read, Prog.bind_eq, Prog.perform_bind, alone_op,
        Disk.perform, entry]
      exact ⟨rfl, rfl⟩

theorem deleteShard_alone (caller : Nat) (id : Uuid) (disk : Disk) :
    (alone caller (deleteShard id) disk).1 = (disk.shard id).isSome ∧
      (alone caller (deleteShard id) disk).2.shard = Function.update disk.shard id none := by
  cases entry : disk.entries (.shard id) with
  | none =>
      have absent : disk.shard id = none := by simp [Disk.shard, entry]
      simp only [deleteShard, unlink, Prog.bind_eq, Prog.perform_bind, alone_op, Disk.perform,
        entry, absent]
      constructor
      · rfl
      · rw [← absent, Function.update_eq_self]
        rfl
  | some file =>
      simp only [deleteShard, unlink, fsyncDir, Prog.bind_eq, Prog.perform_bind, alone_op,
        Disk.perform, entry]
      constructor
      · simp [alone, Disk.shard, entry]
      · funext other
        by_cases same : other = id
        · subst other
          simp [alone, Disk.shard, Disk.enter, Disk.record]
        · have apart : Name.shard other ≠ .shard id := by simpa using same
          simp only [Prog.pure_eq, alone, Disk.shard, Disk.enter, Disk.record,
            Function.update_of_ne apart, Function.update_of_ne same]
          rfl

theorem enter_valid {disk : Disk} {name : Name} {entry : Option Nat} (valid : disk.Valid)
    (known : ∀ file, entry = some file → file < disk.files.length)
    (rooted : disk.made < disk.levels → entry = none)
    (old : ∀ file, name = .temp file → file < disk.files.length ∨ entry = none) :
    (disk.enter name entry).Valid where
  made := valid.made
  known := by
    intro other file found
    by_cases same : other = name
    · subst other
      exact known file (by simpa [Disk.enter] using found)
    · exact valid.known other file (by simpa [Disk.enter, same] using found)
  fresh := by
    intro file late
    by_cases same : Name.temp file = name
    · rcases old file same.symm with early | removed
      · exact absurd early (Nat.not_lt.mpr late)
      · simp [Disk.enter, same, removed]
    · simpa [Disk.enter, same] using valid.fresh file late
  rooted := by
    intro missing other
    by_cases same : other = name
    · simp [Disk.enter, same, rooted missing]
    · simpa [Disk.enter, same] using valid.rooted missing other

theorem record_valid {disk : Disk} {caller : Nat} {access : Access} (valid : disk.Valid) :
    (disk.record caller access).Valid :=
  ⟨valid.made, valid.known, valid.fresh, valid.rooted⟩

def Inside (levels : Nat) : Op → Prop
  | .mkdir depth => depth ≤ levels
  | _ => True

theorem perform_valid {disk : Disk} {caller : Nat} {request : Op} (valid : disk.Valid)
    (inside : Inside disk.levels request) :
    (disk.perform caller request).2.Valid ∧
      (disk.perform caller request).2.levels = disk.levels := by
  -- Taking a name away never breaks what the others point at.
  have cleared : ∀ {name : Name}, (disk.enter name none).Valid := by
    intro name
    apply enter_valid valid
    · nofun
    · exact fun _ => rfl
    · exact fun _ _ => Or.inr rfl
  cases request with
  | mkdir depth =>
      simp only [Disk.perform]
      split
      · exact ⟨valid, rfl⟩
      · split
        · rename_i above next
          refine ⟨⟨inside, valid.known, valid.fresh, ?_⟩, rfl⟩
          intro missing name
          dsimp only at missing
          exact valid.rooted (by omega) name
        · exact ⟨valid, rfl⟩
  | mkstemp =>
      simp only [Disk.perform]
      split
      · exact ⟨valid, rfl⟩
      · rename_i there
        -- A file without a name yet is in nobody's way.
        have grown : Disk.Valid { disk with files := disk.files ++ [⟨[], false, caller⟩] } := by
          constructor
          case made => exact valid.made
          case known =>
            intro name file found
            rw [List.length_append]
            exact Nat.lt_add_right _ (valid.known name file found)
          case fresh =>
            intro file late
            rw [List.length_append] at late
            exact valid.fresh file (Nat.le_of_add_right_le late)
          case rooted => exact fun missing => absurd missing there
        refine ⟨enter_valid grown ?_ (fun missing => absurd missing there) ?_, rfl⟩
        · rintro file ⟨rfl⟩
          simp
        · rintro file ⟨rfl⟩
          simp
  | write file data =>
      refine ⟨⟨valid.made, ?_, ?_, valid.rooted⟩, rfl⟩
      · intro name other found
        simpa [Disk.perform, Disk.change] using valid.known name other found
      · intro other late
        exact valid.fresh other (by simpa [Disk.perform, Disk.change] using late)
  | fsync file =>
      refine ⟨⟨valid.made, ?_, ?_, valid.rooted⟩, rfl⟩
      · intro name other found
        simpa [Disk.perform, Disk.change] using valid.known name other found
      · intro other late
        exact valid.fresh other (by simpa [Disk.perform, Disk.change] using late)
  | link file id =>
      simp only [Disk.perform]
      split
      · exact ⟨valid, rfl⟩
      · exact ⟨record_valid valid, rfl⟩
      · rename_i source temp free
        refine ⟨record_valid (enter_valid valid ?_ ?_ nofun), rfl⟩
        · rintro other ⟨rfl⟩
          exact valid.known _ _ temp
        · intro missing
          exact absurd (temp.symm.trans (valid.rooted missing _)) (by simp)
  | unlink name =>
      cases name with
      | temp file =>
          simp only [Disk.perform]
          split
          · exact ⟨valid, rfl⟩
          · exact ⟨cleared, rfl⟩
      | shard id =>
          simp only [Disk.perform]
          split
          · exact ⟨record_valid valid, rfl⟩
          · exact ⟨record_valid cleared, rfl⟩
  | fsyncDir => exact ⟨⟨valid.made, valid.known, valid.fresh, valid.rooted⟩, rfl⟩
  | «open» id =>
      simp only [Disk.perform]
      split
      · exact ⟨record_valid valid, rfl⟩
      · exact ⟨record_valid valid, rfl⟩
  | read file => exact ⟨valid, rfl⟩

/-- No program of the store leaves an invalid disk. -/
theorem alone_valid {caller : Nat} {Out : Type} {prog : Calls Out} {disk : Disk}
    (only : prog.Only (Inside disk.levels)) (valid : disk.Valid) :
    (alone caller prog disk).2.Valid := by
  induction prog generalizing disk with
  | ret out => exact valid
  | op request next ih =>
      obtain ⟨still, same⟩ := perform_valid valid only.1
      have rest := only.2 (disk.perform caller request).1
      rw [← same] at rest
      exact ih _ rest still

theorem mkdirParents_inside {levels : Nat} (depth : Nat) (within : depth ≤ levels) :
    (mkdirParents depth).Only (Inside levels) := by
  induction depth with
  | zero => trivial
  | succ depth ih =>
      refine ⟨within, fun made => ?_⟩
      cases made with
      | ok _ => trivial
      | error error =>
          cases error with
          | fileNotFound =>
              apply Prog.only_bind (ih (Nat.le_of_succ_le within))
              intro _
              exact ⟨within, fun _ => trivial⟩
          | fileExists => trivial

theorem writeShard_inside (sha256 : Bytes → Bytes) (levels : Nat) (id : Uuid) (data : Bytes) :
    (writeShard sha256 levels id data).Only (Inside levels) := by
  apply Prog.only_bind (mkdirParents_inside levels (Nat.le_refl _))
  intro _
  refine ⟨trivial, fun made => ?_⟩
  cases made with
  | error error => trivial
  | ok tmp =>
      refine ⟨trivial, fun _ => ⟨trivial, fun _ => ⟨trivial, fun _ => ⟨trivial, fun linked => ?_⟩⟩⟩⟩
      refine ⟨trivial, fun _ => ?_⟩
      cases linked with
      | ok _ => exact ⟨trivial, fun _ => trivial⟩
      | error error => cases error <;> trivial

theorem readShard_inside (sha256 : Bytes → Bytes) (levels : Nat) (id : Uuid) :
    (readShard sha256 id).Only (Inside levels) := by
  refine ⟨trivial, fun opened => ?_⟩
  cases opened with
  | error _ => trivial
  | ok file => exact ⟨trivial, fun _ => trivial⟩

theorem deleteShard_inside (levels : Nat) (id : Uuid) : (deleteShard id).Only (Inside levels) := by
  refine ⟨trivial, fun unlinked => ?_⟩
  cases unlinked with
  | error _ => trivial
  | ok _ => exact ⟨trivial, fun _ => trivial⟩

end SecureFileSystem.Storage
