import SecureFileSystem.StorageNode
import SecureFileSystem.Execution

/-!
`write_shard` when the calls it makes fail: each may raise an `OSError` with part
of its work done. Its result without a failure is that of the program of `Storage`.
-/

namespace SecureFileSystem.WriteFailure

open Base Program Execution StorageNode
open Storage (Disk Name Inode shardFile)

inductive Errno where
  | enospc
  | edquot
  | eexist
  | enoent
  | other (number : Nat)
  deriving DecidableEq

inductive FileCall where
  | fdopen
  | write (data : Bytes)
  | flush
  | fsync
  /-- leaving the `with` block flushes and closes -/
  | close
  deriving DecidableEq

inductive Op where
  /-- `shard_dir.mkdir(parents=True, exist_ok=True)` -/
  | mkdir
  | mkstemp
  | onFile (file : Nat) (call : FileCall)
  | link (file : Nat) (id : Uuid)
  /-- `Path(tmp_name).unlink(missing_ok=True)` -/
  | unlink (file : Nat)
  | fsyncDir
  deriving DecidableEq

structure Effect where
  moved : Nat
  raised : Option Errno
  deriving DecidableEq

@[reducible] def Res : Op → Type
  | .mkstemp => Except Errno Nat
  | _ => Effect

abbrev Calls (Out : Type) := Prog Op Res Out

/-- The disk, and what the buffered writer has yet to hand to its file. -/
structure Volume where
  disk : Disk
  buffer : Bytes

def Volume.push (volume : Volume) (file : Nat) (chunk left : Bytes) : Volume :=
  if chunk = [] then { volume with buffer := left }
  else
    ⟨volume.disk.change file fun inode =>
      { inode with content := inode.content ++ chunk, synced := false }, left⟩

/-- `fdopen` and `fsync` move nothing; the others hand on a first part of what
they have, and all of it when they do not fail. -/
def onFile (volume : Volume) (file : Nat) : FileCall → Effect → Option Volume
  | .fdopen, _ => some volume
  | .write data, ⟨moved, none⟩ =>
      let all := volume.buffer ++ data
      some (volume.push file (all.take moved) (all.drop moved))
  | .write data, ⟨moved, some _⟩ =>
      let all := volume.buffer ++ data
      some (volume.push file (all.take moved) (volume.buffer.drop moved))
  | .flush, ⟨_, none⟩ => some (volume.push file volume.buffer [])
  | .flush, ⟨moved, some _⟩ =>
      some (volume.push file (volume.buffer.take moved) (volume.buffer.drop moved))
  | .fsync, ⟨_, none⟩ =>
      some { volume with disk := volume.disk.change file fun inode =>
        { inode with synced := true } }
  | .fsync, ⟨_, some _⟩ => some volume
  | .close, ⟨_, none⟩ => some (volume.push file volume.buffer [])
  | .close, ⟨moved, some _⟩ => some (volume.push file (volume.buffer.take moved) [])

def exec (caller : Nat) (volume : Volume) : (request : Op) → Res request → Option Volume
  | .mkdir, effect =>
      -- it does not raise when the directory is there in the end
      if volume.disk.made ≤ effect.moved ∧ effect.moved ≤ volume.disk.levels ∧
          (effect.raised = none ↔ effect.moved = volume.disk.levels) then
        some { volume with disk := { volume.disk with made := effect.moved } }
      else none
  | .mkstemp, .error _ => some volume
  | .mkstemp, .ok file =>
      if volume.disk.made = volume.disk.levels ∧ file = volume.disk.files.length then
        some ⟨Disk.enter { volume.disk with
          files := volume.disk.files ++ [⟨[], false, caller⟩] } (.temp file) (some file), []⟩
      else none
  | .onFile file call, effect => onFile volume file call effect
  | .link file id, ⟨_, none⟩ =>
      match volume.disk.entries (.temp file), volume.disk.entries (.shard id) with
      | some source, none =>
          some { volume with disk := volume.disk.enter (.shard id) (some source) }
      | _, _ => none
  | .link _ _, ⟨_, some _⟩ => some volume
  | .unlink file, ⟨_, none⟩ =>
      some { volume with disk := volume.disk.enter (.temp file) none }
  | .unlink _, ⟨_, some errno⟩ => if errno = .enoent then none else some volume
  | .fsyncDir, ⟨_, none⟩ =>
      some { volume with disk := { volume.disk with unsettled := fun _ => [] } }
  | .fsyncDir, ⟨_, some _⟩ => some volume

/-- `ShardExistsError`, `StorageFullError`, and an `OSError` that is not caught. -/
inductive WriteError where
  | shardExists
  | storageFull
  | osError (errno : Errno)
  deriving DecidableEq

/-- Statements one after the other, up to the first that raises. -/
def block (file : Nat) : List FileCall → Calls (Option Errno)
  | [] => return none
  | call :: rest => do
      let effect ← Prog.perform (Op.onFile file call)
      match effect.raised with
      | some errno => return some errno
      | none => block file rest

/-- The `with` block. The file is closed whatever its statements raise, and what
the closing raises takes the place of that. -/
def fill (file : Nat) (digest data : Bytes) : Calls (Option Errno) := do
  let opened ← Prog.perform (Op.onFile file .fdopen)
  match opened.raised with
  | some errno => return some errno
  | none => do
      let raised ← block file [.write digest, .write data, .flush, .fsync]
      let closed ← Prog.perform (Op.onFile file .close)
      return closed.raised.or raised

def publish (file : Nat) (id : Uuid) (digest data : Bytes) : Calls (Option Errno) := do
  match ← fill file digest data with
  | some errno => return some errno
  | none => do
      -- `link` fails if the target exists, giving atomic create-if-absent.
      let linked ← Prog.perform (Op.link file id)
      return linked.raised

def translate : Errno → WriteError
  | .eexist => .shardExists
  | .enospc => .storageFull
  | .edquot => .storageFull
  | errno => .osError errno

/-- `write_shard` from its temporary file on: the `finally`, then the directory. -/
def store (tmp : Nat) (id : Uuid) (digest data : Bytes) : Calls (Except WriteError Bytes) := do
  let raised ← publish tmp id digest data
  let cleaned ← Prog.perform (Op.unlink tmp)
  match cleaned.raised with
  | some errno => return .error (.osError errno)
  | none =>
      match raised with
      | some errno => return .error (translate errno)
      | none => do
          let synced ← Prog.perform Op.fsyncDir
          match synced.raised with
          | some errno => return .error (.osError errno)
          | none => return .ok digest

def writeShard (sha256 : Bytes → Bytes) (id : Uuid) (data : Bytes) :
    Calls (Except WriteError Bytes) := do
  let made ← Prog.perform Op.mkdir
  match made.raised with
  | some errno => return .error (.osError errno)
  | none => do
      match ← Prog.perform Op.mkstemp with
      | .error errno => return .error (.osError errno)
      | .ok tmp => store tmp id (sha256 data) data

def putOutcome (id : Uuid) (data : Bytes) : Except WriteError Bytes → Except Raised Response
  | .ok digest => .ok ⟨201, [], .stored (Uuid.uuidText id) (hex digest) data.length⟩
  | .error .shardExists => .error (httpException 409 "shard already exists".toList)
  | .error .storageFull => .error (httpException 507 "insufficient storage".toList)
  | .error (.osError _) => .error .osError

def raisedBy : (request : Op) → Res request → Option Errno
  | .mkstemp, .error errno => some errno
  | .mkstemp, .ok _ => none
  | .mkdir, effect | .onFile _ _, effect | .link _ _, effect | .unlink _, effect
  | .fsyncDir, effect => effect.raised

def raises (answers : List (Answered Res)) : List (Op × Errno) :=
  answers.filterMap fun answered => (raisedBy answered.1 answered.2).map (answered.1, ·)

def Op.early : Op → Bool
  | .unlink _ | .fsyncDir => false
  | _ => true

/-- The calls outside the `try` that translates errors. -/
def Op.outside : Op → Bool
  | .mkdir | .mkstemp => true
  | _ => false

def Errno.full : Errno → Bool
  | .enospc | .edquot => true
  | _ => false

/-- No entry of the directory is added, changed or removed, nor a shard's content. -/
structure Unchanged (before after : Disk) : Prop where
  entries : after.entries = before.entries
  shards : after.shard = before.shard

structure Reports (answers : List (Answered Res)) (raised : Option Errno) : Prop where
  none : raised = none ↔ raises answers = []
  one : ∀ call errno, raises answers = [(call, errno)] → raised = some errno

section Raised
variable {caller file : Nat} {before after : Volume} {answers : List (Answered Res)}
  {raised : Option Errno}

theorem raises_append (early late : List (Answered Res)) :
    raises (early ++ late) = raises early ++ raises late := List.filterMap_append

theorem raises_quiet (request : Op) {answer : Res request} (quiet : raisedBy request answer = none)
    (rest : List (Answered Res)) : raises (⟨request, answer⟩ :: rest) = raises rest := by
  simp [raises, quiet]

theorem raises_error (request : Op) {answer : Res request} {errno : Errno}
    (error : raisedBy request answer = some errno) (rest : List (Answered Res)) :
    raises (⟨request, answer⟩ :: rest) = (request, errno) :: raises rest := by
  simp [raises, error]

theorem reports_last (request : Op) (answer : Res request) :
    Reports [⟨request, answer⟩] (raisedBy request answer) := by
  cases error : raisedBy request answer with
  | none =>
      have only := raises_quiet request error []
      constructor
      · exact ⟨fun _ => only, fun _ => rfl⟩
      · intro call other found
        cases only.symm.trans found
  | some errno =>
      have only := raises_error request error []
      constructor
      · simp [only]
      · intro call other found
        cases only.symm.trans found
        rfl

theorem reports_after {early late : List (Answered Res)} (quiet : raises early = [])
    (reports : Reports late raised) : Reports (early ++ late) raised := by
  have same : raises (early ++ late) = raises late := by
    rw [raises_append, quiet, List.nil_append]
  constructor
  · rw [same]
    exact reports.none
  · rw [same]
    exact reports.one

theorem reports_nothing : Reports [] none := by
  constructor
  · exact ⟨fun _ => rfl, fun _ => rfl⟩
  · intro call errno found
    cases found

theorem block_reports (calls : List FileCall)
    (executes : Executes (exec caller) Still (block file calls) before answers raised after) :
    Reports answers raised := by
  induction calls generalizing before answers with
  | nil =>
      obtain ⟨rfl, rfl, -⟩ := still_ret executes
      exact reports_nothing
  | cons call rest ih =>
      obtain ⟨effect, middle, later, -, further, rfl⟩ := still_op executes
      cases error : effect.raised with
      | some errno =>
          simp only [Prog.ret_bind, error] at further
          obtain ⟨rfl, rfl, -⟩ := still_ret further
          rw [← error]
          exact reports_last (.onFile file call) effect
      | none =>
          simp only [Prog.ret_bind, error] at further
          exact reports_after (raises_quiet (.onFile file call) error []) (ih further)

theorem reports_closed {effect : Effect} (reports : Reports answers raised) :
    Reports (answers ++ [⟨.onFile file .close, effect⟩]) (effect.raised.or raised) := by
  cases error : effect.raised with
  | none =>
      have same : raises (answers ++ [⟨.onFile file .close, effect⟩]) = raises answers := by
        rw [raises_append, raises_quiet (.onFile file .close) error]
        exact List.append_nil _
      constructor
      · rw [same]
        exact reports.none
      · rw [same]
        exact reports.one
  | some errno =>
      have more : raises (answers ++ [⟨.onFile file .close, effect⟩]) =
          raises answers ++ [(.onFile file .close, errno)] := by
        rw [raises_append, raises_error (.onFile file .close) error]
        rfl
      constructor
      · simp [more]
      · intro call other found
        have last := congrArg List.getLast? (more.symm.trans found)
        simp only [List.getLast?_append, List.getLast?_singleton, Option.some_or,
          Option.some.injEq, Prod.mk.injEq] at last
        exact congrArg some last.2

theorem fill_reports {digest data : Bytes}
    (executes : Executes (exec caller) Still (fill file digest data) before answers raised after) :
    Reports answers raised := by
  obtain ⟨effect, middle, later, -, further, rfl⟩ := still_op executes
  cases error : effect.raised with
  | some errno =>
      simp only [Prog.ret_bind, error] at further
      obtain ⟨rfl, rfl, -⟩ := still_ret further
      rw [← error]
      exact reports_last (.onFile file .fdopen) effect
  | none =>
      simp only [Prog.ret_bind, error] at further
      obtain ⟨early, late, body, between, rfl, written, closing⟩ := executes_bind further
      obtain ⟨closed, last, none, -, ended, rfl⟩ := still_op closing
      obtain ⟨rfl, rfl, -⟩ := still_ret ended
      exact reports_after (raises_quiet (.onFile file .fdopen) error [])
        (reports_closed (block_reports _ written))

theorem publish_reports {id : Uuid} {digest data : Bytes}
    (executes : Executes (exec caller) Still (publish file id digest data) before answers raised
      after) : Reports answers raised := by
  obtain ⟨early, late, body, between, rfl, filled, further⟩ := executes_bind executes
  have reports := fill_reports filled
  cases body with
  | some errno =>
      obtain ⟨rfl, rfl, -⟩ := still_ret further
      rw [List.append_nil]
      exact reports
  | none =>
      obtain ⟨effect, middle, later, -, ended, rfl⟩ := still_op further
      obtain ⟨rfl, rfl, -⟩ := still_ret ended
      exact reports_after (reports.none.mp rfl) (reports_last (.link file id) effect)

end Raised

section Disk
variable {caller : Nat} {before : Disk} {volume next : Volume}

/-- The disk is as before, but for the temporary file that has been made since. -/
structure Beside (before : Disk) (volume : Volume) : Prop where
  entries : ∀ name, name ≠ .temp before.files.length →
    volume.disk.entries name = before.entries name
  files : ∀ file < before.files.length, volume.disk.files[file]? = before.files[file]?

theorem change_beside (update : Inode → Inode) {buffer : Bytes} (beside : Beside before volume) :
    Beside before ⟨volume.disk.change before.files.length update, buffer⟩ := by
  constructor
  · exact beside.entries
  · intro file old
    have apart : before.files.length ≠ file := by omega
    exact (List.getElem?_modify_ne update _ apart).trans (beside.files file old)

theorem push_beside (chunk left : Bytes) (beside : Beside before volume) :
    Beside before (volume.push before.files.length chunk left) := by
  unfold Volume.push
  split
  · exact ⟨beside.entries, beside.files⟩
  · exact change_beside _ beside

theorem onFile_beside (call : FileCall) (effect : Effect)
    (done : onFile volume before.files.length call effect = some next)
    (beside : Beside before volume) : Beside before next := by
  obtain ⟨moved, raised⟩ := effect
  cases call with
  | fdopen =>
      cases done
      exact beside
  | write data => cases raised <;> (cases done; exact push_beside _ _ beside)
  | flush => cases raised <;> (cases done; exact push_beside _ _ beside)
  | fsync =>
      cases raised with
      | none =>
          cases done
          exact change_beside _ beside
      | some errno =>
          cases done
          exact beside
  | close => cases raised <;> (cases done; exact push_beside _ _ beside)

theorem beside_unchanged (valid : before.Valid) (beside : Beside before volume) :
    Unchanged before (volume.disk.enter (.temp before.files.length) none) := by
  have entries : (volume.disk.enter (.temp before.files.length) none).entries = before.entries := by
    funext name
    by_cases temp : name = .temp before.files.length
    · subst temp
      rw [valid.fresh _ (Nat.le_refl _)]
      exact Function.update_self _ _ _
    · have other : (volume.disk.enter (.temp before.files.length) none).entries name =
          volume.disk.entries name := Function.update_of_ne temp _ _
      rw [other]
      exact beside.entries name temp
  constructor
  · exact entries
  · funext id
    unfold Disk.shard
    rw [entries]
    cases held : before.entries (.shard id) with
    | none => rfl
    | some file =>
        have known := beside.files file (valid.known _ file held)
        simp only [Option.map_some, Disk.content, Disk.enter, known]

end Disk

section Write
variable {sha256 : Bytes → Bytes} {caller : Nat} {id : Uuid} {data : Bytes}
  {file : Nat} {before after : Volume} {answers : List (Answered Res)}

theorem block_only (file : Nat) (calls : List FileCall) :
    (block file calls).Only fun request => ∃ call, request = .onFile file call := by
  induction calls with
  | nil => trivial
  | cons call rest ih =>
      refine ⟨⟨call, rfl⟩, fun effect => ?_⟩
      dsimp only [Prog.ret_bind]
      split
      · trivial
      · exact ih

theorem fill_only (file : Nat) (digest data : Bytes) :
    (fill file digest data).Only fun request => ∃ call, request = .onFile file call := by
  refine ⟨⟨.fdopen, rfl⟩, fun opened => ?_⟩
  dsimp only [Prog.ret_bind]
  split
  · trivial
  · exact Prog.only_bind (block_only file _) fun raised => ⟨⟨.close, rfl⟩, fun _ => trivial⟩

/-- All of this is covered by the `try`. -/
theorem publish_only (file : Nat) (id : Uuid) (digest data : Bytes) :
    (publish file id digest data).Only fun request => request.outside = false := by
  apply Prog.only_bind
  · apply Prog.only_mono (fill_only file digest data)
    rintro request ⟨call, rfl⟩
    rfl
  · intro raised
    cases raised with
    | some errno => trivial
    | none => exact ⟨rfl, fun _ => trivial⟩

theorem fill_beside {disk : Disk} {digest : Bytes} {raised : Option Errno}
    (executes : Executes (exec caller) Still (fill disk.files.length digest data) before answers
      raised after) (beside : Beside disk before) : Beside disk after := by
  apply executes_only (fill_only _ _ _) _ _ executes beside
  · rintro volume request answer next ⟨call, rfl⟩ done there
    exact onFile_beside call answer done there
  · exact fun _ _ moved => moved.elim

theorem publish_beside {disk : Disk} {digest : Bytes} {errno : Errno}
    (executes : Executes (exec caller) Still (publish disk.files.length id digest data) before
      answers (some errno) after) (beside : Beside disk before) : Beside disk after := by
  obtain ⟨early, late, body, between, rfl, filled, further⟩ := executes_bind executes
  have there := fill_beside filled beside
  cases body with
  | some first =>
      obtain ⟨-, -, rfl⟩ := still_ret further
      exact there
  | none =>
      obtain ⟨effect, middle, later, done, ended, -⟩ := still_op further
      obtain ⟨error, -, rfl⟩ := still_ret ended
      obtain ⟨moved, raised⟩ := effect
      obtain rfl : some errno = raised := error
      cases done
      exact there

inductive Failing (before after : Disk) (call : Op) (errno : Errno) :
    Except WriteError Bytes → Prop
  | outside (kind : call.outside = true) (unchanged : Unchanged before after) :
      Failing before after call errno (.error (.osError errno))
  | inside (kind : call.outside = false) (unchanged : Unchanged before after) :
      Failing before after call errno (.error (translate errno))

theorem store_failing {disk : Disk} (valid : disk.Valid) (beside : Beside disk before)
    {out : Except WriteError Bytes} {digest : Bytes}
    (executes : Executes (exec caller) Still (store disk.files.length id digest data) before
      answers out after) {call : Op} {errno : Errno} (one : raises answers = [(call, errno)])
    (early : call.early = true) : Failing disk after.disk call errno out := by
  obtain ⟨first, second, raised, linked, rfl, published, cleaning⟩ := executes_bind executes
  obtain ⟨cleaned, removed, last, unlinked, ending, rfl⟩ := still_op cleaning
  have reports := publish_reports published
  rw [raises_append] at one
  cases raised with
  | none =>
      -- then it is the removal or the directory that failed, after the link
      rw [reports.none.mp rfl, List.nil_append] at one
      cases error : cleaned.raised with
      | some other =>
          rw [raises_error (.unlink _) error] at one
          obtain rfl : .unlink _ = call := congrArg Prod.fst (List.cons.inj one).1
          cases early
      | none =>
          rw [raises_quiet (.unlink _) error] at one
          simp only [Prog.ret_bind, error] at ending
          obtain ⟨synced, settled, rest, -, ended, rfl⟩ := still_op ending
          cases failed : synced.raised with
          | some other =>
              rw [raises_error .fsyncDir failed] at one
              obtain rfl : .fsyncDir = call := congrArg Prod.fst (List.cons.inj one).1
              cases early
          | none =>
              simp only [Prog.ret_bind, failed] at ended
              obtain ⟨-, rfl, -⟩ := still_ret ended
              rw [raises_quiet .fsyncDir failed] at one
              cases one
  | some other =>
      -- the only error is that of the part the `try` covers
      have told : raises first ≠ [] := fun quiet => by cases reports.none.mpr quiet
      obtain ⟨alone, quiet⟩ : raises first = [(call, errno)] ∧
          raises (⟨.unlink disk.files.length, cleaned⟩ :: last) = [] := by
        cases asked : raises first with
        | nil => exact absurd asked told
        | cons head more =>
            rw [asked, List.cons_append, List.cons.injEq, List.append_eq_nil_iff] at one
            obtain ⟨rfl, rfl, quiet⟩ := one
            exact ⟨rfl, quiet⟩
      obtain rfl : other = errno := Option.some.inj (reports.one call errno alone)
      have kind : call.outside = false := by
        have member : (call, other) ∈ raises first := by simp [alone]
        obtain ⟨answered, asked, same⟩ := List.mem_filterMap.mp member
        obtain ⟨errno, -, same⟩ := Option.map_eq_some_iff.mp same
        obtain rfl : answered.1 = call := congrArg Prod.fst same
        exact executes_kinds (publish_only _ _ _ _) published answered asked
      cases error : cleaned.raised with
      | some late =>
          rw [raises_error (.unlink _) error] at quiet
          cases quiet
      | none =>
          simp only [Prog.ret_bind, error] at ending
          obtain ⟨rfl, rfl, rfl⟩ := still_ret ending
          obtain ⟨moved, raised⟩ := cleaned
          obtain rfl : raised = none := error
          cases unlinked
          exact .inside kind (beside_unchanged valid (publish_beside published beside))

structure Holding (before : Disk) (caller : Nat) (written : Bytes) (volume : Volume) : Prop where
  beside : Beside before volume
  temp : volume.disk.entries (.temp before.files.length) = some before.files.length
  file : ∃ content synced, volume.disk.files = before.files ++ [⟨content, synced, caller⟩] ∧
    content ++ volume.buffer = written

theorem change_last (files : List Inode) (inode : Inode) (update : Inode → Inode) :
    (files ++ [inode]).modify files.length update = files ++ [update inode] := by
  rw [List.modify_eq_take_drop]
  simp

theorem push_holding {disk : Disk} {written : Bytes} {volume : Volume} (chunk left more : Bytes)
    (whole : chunk ++ left = volume.buffer ++ more) (holding : Holding disk caller written volume) :
    Holding disk caller (written ++ more) (volume.push disk.files.length chunk left) := by
  obtain ⟨content, synced, files, same⟩ := holding.file
  have beside := push_beside chunk left holding.beside
  have total : content ++ (chunk ++ left) = written ++ more := by
    rw [whole, ← List.append_assoc, same]
  unfold Volume.push at beside ⊢
  by_cases none : chunk = []
  · rw [if_pos none] at beside ⊢
    exact ⟨beside, holding.temp, content, synced, files, by simpa [none] using total⟩
  · rw [if_neg none] at beside ⊢
    refine ⟨beside, holding.temp, content ++ chunk, false, ?_, by simpa using total⟩
    rw [Disk.change, files, change_last]

def FileCall.adds : FileCall → Bytes
  | .write data => data
  | _ => []

theorem onFile_holding {disk : Disk} {written : Bytes} {volume next : Volume} (call : FileCall)
    {effect : Effect} (quiet : effect.raised = none)
    (done : onFile volume disk.files.length call effect = some next)
    (holding : Holding disk caller written volume) :
    Holding disk caller (written ++ call.adds) next := by
  obtain ⟨moved, raised⟩ := effect
  obtain rfl : raised = none := quiet
  have nothing : written ++ [] = written := List.append_nil written
  cases call with
  | fdopen =>
      cases done
      change Holding disk caller (written ++ []) volume
      rwa [nothing]
  | write data =>
      cases done
      exact push_holding _ _ data (List.take_append_drop _ _) holding
  | flush =>
      cases done
      exact push_holding _ _ [] rfl holding
  | fsync =>
      cases done
      obtain ⟨content, synced, files, same⟩ := holding.file
      refine ⟨change_beside _ holding.beside, holding.temp, content, true, ?_,
        same.trans nothing.symm⟩
      rw [Disk.change, files, change_last]
  | close =>
      cases done
      exact push_holding _ _ [] rfl holding

theorem close_buffer {volume next : Volume} {effect : Effect} (quiet : effect.raised = none)
    (done : onFile volume file .close effect = some next) : next.buffer = [] := by
  obtain ⟨moved, raised⟩ := effect
  obtain rfl : raised = none := quiet
  cases done
  unfold Volume.push
  split
  · rfl
  · rfl

theorem block_holding {disk : Disk} {written : Bytes} (calls : List FileCall)
    (executes : Executes (exec caller) Still (block disk.files.length calls) before answers none
      after) (holding : Holding disk caller written before) :
    Holding disk caller (written ++ calls.flatMap FileCall.adds) after := by
  induction calls generalizing before written answers with
  | nil =>
      obtain ⟨-, -, rfl⟩ := still_ret executes
      rwa [List.flatMap_nil, List.append_nil]
  | cons call rest ih =>
      obtain ⟨effect, middle, later, done, further, -⟩ := still_op executes
      cases error : effect.raised with
      | some errno =>
          simp only [Prog.ret_bind, error] at further
          cases (still_ret further).1
      | none =>
          simp only [Prog.ret_bind, error] at further
          rw [List.flatMap_cons, ← List.append_assoc]
          exact ih further (onFile_holding call error done holding)

theorem fill_holding {disk : Disk} {digest : Bytes}
    (executes : Executes (exec caller) Still (fill disk.files.length digest data) before answers
      none after) (holding : Holding disk caller [] before) :
    Holding disk caller (digest ++ data) after ∧ after.buffer = [] := by
  obtain ⟨effect, middle, later, done, further, -⟩ := still_op executes
  cases error : effect.raised with
  | some errno =>
      simp only [Prog.ret_bind, error] at further
      cases (still_ret further).1
  | none =>
      simp only [Prog.ret_bind, error] at further
      have opened : Holding disk caller [] middle := onFile_holding .fdopen error done holding
      obtain ⟨early, late, body, between, -, written, closing⟩ := executes_bind further
      obtain ⟨closed, last, none, shut, ended, -⟩ := still_op closing
      obtain ⟨quiet, -, rfl⟩ := still_ret ended
      obtain ⟨closes, rfl⟩ := Option.or_eq_none_iff.mp quiet.symm
      have filled := onFile_holding .close closes shut (block_holding _ written opened)
      refine ⟨?_, close_buffer closes shut⟩
      simpa [FileCall.adds] using filled

theorem link_free {volume next : Volume} {effect : Effect} {source : Nat}
    (quiet : effect.raised = none) (done : exec caller volume (.link file id) effect = some next)
    (temp : volume.disk.entries (.temp file) = some source) :
    next = { volume with disk := volume.disk.enter (.shard id) (some source) } ∧
      volume.disk.entries (.shard id) = none := by
  obtain ⟨moved, raised⟩ := effect
  obtain rfl : raised = none := quiet
  simp only [exec, temp] at done
  cases taken : volume.disk.entries (.shard id) with
  | some other =>
      rw [taken] at done
      cases done
  | none =>
      rw [taken] at done
      cases done
      exact ⟨rfl, rfl⟩

theorem linked_shard {disk : Disk} {content : Bytes} {volume : Volume} (valid : disk.Valid)
    (whole : Holding disk caller content volume) (empty : volume.buffer = []) (id : Uuid) :
    ((volume.disk.enter (.shard id) (some disk.files.length)).enter
      (.temp disk.files.length) none).shard =
        Function.update disk.shard id (some content) := by
  obtain ⟨written, synced, files, same⟩ := whole.file
  rw [empty, List.append_nil] at same
  subst same
  have stored : volume.disk.content disk.files.length = written := by
    simp [Disk.content, files]
  funext other
  by_cases own : other = id
  · subst other
    rw [Function.update_self]
    have entry : ((volume.disk.enter (.shard id) (some disk.files.length)).enter
        (.temp disk.files.length) none).entries (.shard id) = some disk.files.length := by
      simp [Disk.enter]
    rw [Disk.shard, entry]
    exact congrArg some stored
  · rw [Function.update_of_ne own]
    have apart : Name.shard other ≠ .shard id := by simpa using own
    have entry : ((volume.disk.enter (.shard id) (some disk.files.length)).enter
        (.temp disk.files.length) none).entries (.shard other) = disk.entries (.shard other) := by
      simp only [Disk.enter, ne_eq, reduceCtorEq, not_false_eq_true, Function.update_of_ne, apart]
      exact whole.beside.entries _ (by simp)
    rw [Disk.shard, Disk.shard, entry]
    cases held : disk.entries (.shard other) with
    | none => rfl
    | some file =>
        have known := whole.beside.files file (valid.known _ file held)
        exact congrArg (fun inode : Option Inode => some ((inode.map (·.content)).getD [])) known

theorem store_unfailing {disk : Disk} (valid : disk.Valid) {out : Except WriteError Bytes}
    {digest : Bytes} (holding : Holding disk caller [] before)
    (executes : Executes (exec caller) Still (store disk.files.length id digest data) before
      answers out after) (quiet : raises answers = []) :
    disk.shard id = none ∧ out = .ok digest ∧
      after.disk.shard = Function.update disk.shard id (some (digest ++ data)) := by
  obtain ⟨first, second, raised, linked, rfl, published, cleaning⟩ := executes_bind executes
  rw [raises_append, List.append_eq_nil_iff] at quiet
  obtain rfl := (publish_reports published).none.mpr quiet.1
  obtain ⟨early, late, body, filled, -, filling, linking⟩ := executes_bind published
  cases body with
  | some errno => cases (still_ret linking).1
  | none =>
      obtain ⟨whole, empty⟩ := fill_holding filling holding
      obtain ⟨effect, named, rest, link, ended, -⟩ := still_op linking
      obtain ⟨quietly, -, rfl⟩ := still_ret ended
      obtain ⟨named, free⟩ := link_free quietly.symm link whole.temp
      subst named
      obtain ⟨cleaned, removed, last, unlinked, ending, rfl⟩ := still_op cleaning
      cases error : cleaned.raised with
      | some errno => cases (raises_error (.unlink _) error last).symm.trans quiet.2
      | none =>
          simp only [Prog.ret_bind, error] at ending
          obtain ⟨synced, settled, rest, done, finished, rfl⟩ := still_op ending
          cases failed : synced.raised with
          | some errno =>
              have told := (raises_quiet (.unlink _) error _).symm.trans quiet.2
              cases (raises_error .fsyncDir failed rest).symm.trans told
          | none =>
              simp only [Prog.ret_bind, failed] at finished
              obtain ⟨rfl, -, rfl⟩ := still_ret finished
              have absent : disk.shard id = none := by
                rw [Disk.shard, ← whole.beside.entries _ (by simp), free]
                rfl
              refine ⟨absent, rfl, ?_⟩
              rw [← linked_shard valid whole empty id]
              obtain ⟨_, raised⟩ := cleaned
              obtain rfl : raised = none := error
              obtain ⟨_, raised⟩ := synced
              obtain rfl : raised = none := failed
              cases unlinked
              cases done
              rfl

/-- Up to its temporary file a write fails with the error as it is, or has an empty
file to go on with. -/
theorem writeShard_begun {out : Except WriteError Bytes}
    (executes : Executes (exec caller) Still (writeShard sha256 id data) before answers out after) :
    (∃ call errno, raises answers = [(call, errno)] ∧ call.outside = true ∧
      out = .error (.osError errno) ∧ Unchanged before.disk after.disk) ∨
    ∃ opened later, raises answers = raises later ∧ Holding before.disk caller [] opened ∧
      Executes (exec caller) Still (store before.disk.files.length id (sha256 data) data) opened
        later out after := by
  obtain ⟨made, volume, later, done, further, rfl⟩ := still_op executes
  have directory : volume.disk.files = before.disk.files ∧ Unchanged before.disk volume.disk := by
    obtain ⟨-, same⟩ := Option.ite_none_right_eq_some.mp done
    cases same
    exact ⟨rfl, rfl, rfl⟩
  obtain ⟨files, unchanged⟩ := directory
  cases error : made.raised with
  | some first =>
      simp only [Prog.ret_bind, error] at further
      obtain ⟨rfl, rfl, rfl⟩ := still_ret further
      exact Or.inl ⟨.mkdir, first, raises_error .mkdir error [], rfl, rfl, unchanged⟩
  | none =>
      simp only [Prog.ret_bind, error] at further
      rw [raises_quiet .mkdir error]
      obtain ⟨temp, opened, rest, created, continued, rfl⟩ := still_op further
      cases temp with
      | error first =>
          cases created
          obtain ⟨rfl, rfl, rfl⟩ := still_ret continued
          exact Or.inl ⟨.mkstemp, first, raises_error .mkstemp rfl [], rfl, rfl,
            unchanged⟩
      | ok tmp =>
          obtain ⟨⟨-, named⟩, same⟩ := Option.ite_none_right_eq_some.mp created
          rw [files] at named
          subst named
          refine Or.inr ⟨opened, rest, raises_quiet .mkstemp rfl rest, ?_, continued⟩
          cases same
          constructor
          · constructor
            · intro name other
              rw [← unchanged.entries]
              exact Function.update_of_ne other _ _
            · intro file old
              rw [← files] at old ⊢
              exact List.getElem?_append_left old
          · exact Function.update_self _ _ _
          · exact ⟨[], false, by rw [← files]; rfl, rfl⟩

/-- A write in which nothing fails comes to what the program of `Storage` comes to. -/
theorem writeShard_unfailing (valid : before.disk.Valid) {out : Except WriteError Bytes}
    (executes : Executes (exec caller) Still (writeShard sha256 id data) before answers out after)
    (quiet : raises answers = []) :
    out = .ok (sha256 data) ∧
      (Storage.alone caller (Storage.writeShard sha256 before.disk.levels id data)
        before.disk).1 = .ok (sha256 data) ∧
      (Storage.alone caller (Storage.writeShard sha256 before.disk.levels id data)
        before.disk).2.shard = after.disk.shard := by
  rcases writeShard_begun executes with
    ⟨call, errno, one, -⟩ | ⟨opened, later, same, holding, stored⟩
  · cases one.symm.trans quiet
  · obtain ⟨absent, rfl, shards⟩ := store_unfailing valid holding stored (same.symm.trans quiet)
    obtain ⟨result, kept⟩ :=
      (Storage.writeShard_alone sha256 caller id data before.disk valid).1 absent
    exact ⟨rfl, result, kept.trans shards.symm⟩

theorem writeShard_failing (valid : before.disk.Valid) {out : Except WriteError Bytes}
    (executes : Executes (exec caller) Still (writeShard sha256 id data) before answers out after)
    {call : Op} {errno : Errno} (one : raises answers = [(call, errno)])
    (early : call.early = true) : Failing before.disk after.disk call errno out := by
  rcases writeShard_begun executes with
    ⟨other, error, raised, outside, rfl, unchanged⟩ | ⟨opened, later, same, holding, stored⟩
  · cases raised.symm.trans one
    exact .outside outside unchanged
  · exact store_failing valid holding.beside stored (same.symm.trans one) early

/-- What is promised of a write whose one failing call came before its link took
effect: nothing is left of it, and a full disk is reported as such. -/
structure Promised (id : Uuid) (data : Bytes) (before after : Disk) (errno : Errno)
    (out : Except WriteError Bytes) : Prop where
  unchanged : Unchanged before after
  full : errno.full = true → out = .error .storageFull ∧
    putOutcome id data out = .error (httpException 507 "insufficient storage".toList)

/-- The promise is kept unless it is the making of the directory or of the temporary
file that finds the disk full. -/
theorem writeShard_failed (sha256 : Bytes → Bytes) (caller : Nat) (id : Uuid) (data : Bytes)
    (before after : Volume) (valid : before.disk.Valid) (answers : List (Answered Res))
    (out : Except WriteError Bytes)
    (executes : Executes (exec caller) Still (writeShard sha256 id data) before answers out after)
    (call : Op) (errno : Errno) (one : raises answers = [(call, errno)])
    (early : call.early = true) :
    Promised id data before.disk after.disk errno out ↔
      ¬ (call.outside = true ∧ errno.full = true) := by
  cases writeShard_failing valid executes one early with
  | outside kind unchanged =>
      constructor
      · rintro promised ⟨-, full⟩
        cases (promised.full full).1
      · intro other
        exact ⟨unchanged, fun full => absurd ⟨kind, full⟩ other⟩
  | inside kind unchanged =>
      constructor
      · rintro - ⟨clash, -⟩
        rw [kind] at clash
        cases clash
      · intro _
        refine ⟨unchanged, fun full => ?_⟩
        have translated : translate errno = .storageFull := by
          cases errno <;> first | rfl | cases full
        rw [translated]
        exact ⟨rfl, rfl⟩

end Write

def emptyVolume : Volume := ⟨emptyDisk, []⟩

def noInode : List (Answered Res) := [⟨.mkdir, ⟨1, none⟩⟩, ⟨.mkstemp, .error .enospc⟩]

theorem noInode_executes (sha256 : Bytes → Bytes) (id : Uuid) (data : Bytes) :
    Executes (exec 0) Still (writeShard sha256 id data) emptyVolume noInode
      (.error (.osError .enospc)) emptyVolume := by
  apply Executes.op rfl
  apply Executes.op rfl
  exact Executes.ret

def fullDisk : List (Answered Res) :=
  [⟨.mkdir, ⟨1, none⟩⟩, ⟨.mkstemp, .ok 0⟩, ⟨.onFile 0 .fdopen, ⟨0, none⟩⟩,
    ⟨.onFile 0 (.write (smallLibrary.sha256 [7])), ⟨5, none⟩⟩,
    ⟨.onFile 0 (.write [7]), ⟨0, some .enospc⟩⟩, ⟨.onFile 0 .close, ⟨0, none⟩⟩, ⟨.unlink 0, ⟨0, none⟩⟩]

theorem fullDisk_executes (id : Uuid) : ∃ after,
    Executes (exec 0) Still (writeShard smallLibrary.sha256 id [7]) emptyVolume fullDisk
      (.error .storageFull) after := by
  apply Exists.intro
  apply Executes.op rfl
  apply Executes.op rfl
  apply Executes.op rfl
  apply Executes.op rfl
  apply Executes.op rfl
  apply Executes.op rfl
  apply Executes.op rfl
  exact Executes.ret

theorem writeShard_failed_full : ∃ after : Volume,
    Promised 1 [7] emptyVolume.disk after.disk .enospc (.error .storageFull) := by
  obtain ⟨after, executes⟩ := fullDisk_executes 1
  refine ⟨after, (writeShard_failed smallLibrary.sha256 0 1 [7] emptyVolume after emptyDisk_valid
    fullDisk _ executes (.onFile 0 (.write [7])) .enospc (by decide) rfl).mpr ?_⟩
  rintro ⟨outside, -⟩
  cases outside

theorem writeShard_unreported :
    ¬ ∀ (sha256 : Bytes → Bytes) (caller : Nat) (id : Uuid) (data : Bytes) (before after : Volume),
      before.disk.Valid → ∀ (answers : List (Answered Res)) (out : Except WriteError Bytes),
        Executes (exec caller) Still (writeShard sha256 id data) before answers out after →
          ∀ (call : Op) (errno : Errno), raises answers = [(call, errno)] → call.early = true →
            Promised id data before.disk after.disk errno out := by
  intro promised
  have kept := promised smallLibrary.sha256 0 1 [7] emptyVolume emptyVolume emptyDisk_valid
    noInode _ (noInode_executes _ _ _) .mkstemp .enospc (by decide) rfl
  cases (kept.full rfl).1

end SecureFileSystem.WriteFailure
