import SecureFileSystem.ShardCalls
import SecureFileSystem.StorageNode

/-!
The shard store refines a write-once map: the accesses to its names, in the
order in which they happen, are the order of the map's operations.
-/

namespace SecureFileSystem.Linearization

open Base Program Storage Transition RelyGuarantee WriteOnce ShardStore ShardCalls

variable {sha256 : Bytes → Bytes} {levels : Nat} {Called : Nat → Call → Prop}

/-- The shards on the disk are the complete files of a map's payloads. -/
def Holds (sha256 : Bytes → Bytes) (disk : Disk) (store : Store Uuid Bytes) : Prop :=
  ∀ id, disk.shard id = (store id).map (shardFile sha256)

def operations (disk : Disk) : List (Nat × Event Uuid Bytes) :=
  disk.log.map fun entry => (entry.1, event entry.2)

/-- A call whose operation this can be. -/
def Calls (sha256 : Bytes → Bytes) (Called : Nat → Call → Prop) (caller : Nat)
    (event : Event Uuid Bytes) : Prop :=
  ∃ call out, Called caller call ∧ Answers sha256 call out event

theorem shard_of_files {before after : Disk} (sound : Sound sha256 levels before)
    (files : ∀ file data, Whole sha256 before file data → after.content file = before.content file)
    (id : Uuid) (same : after.entries (.shard id) = before.entries (.shard id)) :
    after.shard id = before.shard id := by
  rw [Disk.shard, Disk.shard, same]
  cases entry : before.entries (.shard id) with
  | none => rfl
  | some file =>
      obtain ⟨data, whole⟩ := sound.stored id file entry
      rw [Option.map_some, Option.map_some, files file data whole]

theorem content_kept {caller file : Nat} {data : Bytes} {before after : Disk}
    (effect : Effect caller before after) (whole : Whole sha256 before file data) :
    after.content file = before.content file := by
  obtain ⟨inode, held, synced, -⟩ := whole
  rcases effect.files file inode held with same | ⟨-, unsynced, -⟩
  · rw [content_held same, content_held held]
  · rw [synced] at unsynced
    cases unsynced

theorem store_free {disk : Disk} {store : Store Uuid Bytes} (holds : Holds sha256 disk store)
    {id : Uuid} (free : disk.entries (.shard id) = none) : store id = none := by
  have same := holds id
  rw [Disk.shard, free, Option.map_none] at same
  exact Option.map_eq_none_iff.mp same.symm

theorem store_taken {disk : Disk} {store : Store Uuid Bytes} (holds : Holds sha256 disk store)
    {id : Uuid} {file : Nat} (taken : disk.entries (.shard id) = some file) :
    (store id).isSome = true := by
  have same := holds id
  rw [Disk.shard, taken, Option.map_some] at same
  cases held : store id with
  | none =>
      rw [held] at same
      cases same
  | some data => rfl

theorem serves_taken {disk : Disk} {store : Store Uuid Bytes} (holds : Holds sha256 disk store)
    {id : Uuid} {data : Bytes} {file : Nat} (taken : disk.entries (.shard id) = some file) :
    Serves store (.put id data false) store := by
  obtain ⟨value, held⟩ := Option.isSome_iff_exists.mp (store_taken holds taken)
  simp only [Serves, putIfAbsent, held]

theorem serves_free {disk : Disk} {store : Store Uuid Bytes} (holds : Holds sha256 disk store)
    {id : Uuid} {data : Bytes} (free : disk.entries (.shard id) = none) :
    Serves store (.put id data true) (Function.update store id (some data)) := by
  simp only [Serves, putIfAbsent, store_free holds free]

theorem holds_update {before after : Disk} {store : Store Uuid Bytes}
    (holds : Holds sha256 before store) {id : Uuid} {value : Option Bytes}
    (here : after.shard id = value.map (shardFile sha256))
    (elsewhere : ∀ other, other ≠ id → after.shard other = before.shard other) :
    Holds sha256 after (Function.update store id value) := by
  intro other
  by_cases same : other = id
  · subst other
    rw [Function.update_self, here]
  · rw [Function.update_of_ne same, elsewhere other same, holds other]

theorem entered_elsewhere (disk : Disk) {id other : Uuid} (apart : other ≠ id) (entry : Option Nat)
    (caller : Nat) (access : Access) :
    ((disk.enter (.shard id) entry).record caller access).shard other = disk.shard other := by
  have name : Name.shard other ≠ .shard id := by simpa using apart
  simp [Disk.shard, Disk.record, Disk.enter, Function.update_of_ne name]
  rfl

/-- One more access is on the record: the next operation on the map. -/
def Operates (sha256 : Bytes → Bytes) (Called : Nat → Call → Prop) (caller : Nat)
    (before after : Disk) (store : Store Uuid Bytes) : Prop :=
  ∃ access next, after.log = before.log ++ [(caller, access)] ∧
    Calls sha256 Called caller (event access) ∧ Serves store (event access) next ∧
    Holds sha256 after next

section Operations

variable {caller : Nat} {before : Disk} {store : Store Uuid Bytes} {id : Uuid}

/-- Of several writers of one id, the one that finds the name free is served. -/
theorem link_operates (digest : ∀ data, (sha256 data).length = digestSize) {file : Nat}
    {inode : Inode} {data : Bytes} (held : before.files[file]? = some inode)
    (content : inode.content = shardFile sha256 data)
    (temp : before.entries (.temp file) = some file) (called : Called caller (.write id data))
    (holds : Holds sha256 before store)
    (quiet : (∀ other, (before.perform caller (.link file id)).2.entries (.shard other) =
      before.entries (.shard other)) →
        Holds sha256 (before.perform caller (.link file id)).2 store) :
    Operates sha256 Called caller before (before.perform caller (.link file id)).2 store := by
  have bytes : before.content file = shardFile sha256 data := by
    rw [content_held held, content]
  cases taken : before.entries (.shard id) with
  | some source =>
      rw [link_taken caller temp taken, bytes] at quiet ⊢
      refine ⟨_, store, rfl, ?_, ?_, quiet fun _ => rfl⟩
      · rw [event_link digest]
        exact ⟨.write id data, _, called, rfl, rfl, rfl⟩
      · rw [event_link digest]
        exact serves_taken holds taken
  | none =>
      rw [link_free caller temp taken, bytes]
      refine ⟨_, Function.update store id (some data), rfl, ?_, ?_, ?_⟩
      · rw [event_link digest]
        exact ⟨.write id data, _, called, rfl, rfl, rfl⟩
      · rw [event_link digest]
        exact serves_free holds taken
      · apply holds_update holds
        · simp [Disk.shard, Disk.record, Disk.enter, Disk.content, held, content]
        · exact fun other apart => entered_elsewhere before apart (some file) caller _

/-- A read is served when it opens: what it reads later is the inode it got. -/
theorem open_operates (digest : ∀ data, (sha256 data).length = digestSize)
    (called : Called caller (.read id)) (holds : Holds sha256 before store)
    (quiet : Holds sha256 (before.perform caller (.open id)).2 store) :
    Operates sha256 Called caller before (before.perform caller (.open id)).2 store := by
  rw [open_recorded] at quiet ⊢
  have found : (before.shard id).map (·.drop digestSize) = store id := by
    rw [holds id]
    cases store id with
    | none => rfl
    | some data =>
        rw [Option.map_some, Option.map_some, shardFile, ← digest data, List.drop_left]
  refine ⟨_, store, rfl, ⟨.read id, _, called, rfl, rfl⟩, ?_, quiet⟩
  simp only [event, Serves, WriteOnce.get, found]

theorem remove_operates (called : Called caller (.delete id)) (holds : Holds sha256 before store)
    (quiet : (∀ other, (before.perform caller (.unlink (.shard id))).2.entries (.shard other) =
      before.entries (.shard other)) →
        Holds sha256 (before.perform caller (.unlink (.shard id))).2 store) :
    Operates sha256 Called caller before (before.perform caller (.unlink (.shard id))).2 store := by
  cases taken : before.entries (.shard id) with
  | none =>
      rw [remove_absent caller taken] at quiet ⊢
      have absent := store_free holds taken
      refine ⟨_, store, rfl, ⟨.delete id, _, called, rfl, rfl⟩, ?_, quiet fun _ => rfl⟩
      simp only [event, Serves, WriteOnce.remove, absent, Option.isSome_none, Prod.mk.injEq,
        true_and]
      rw [← absent, Function.update_eq_self]
  | some source =>
      rw [remove_present caller taken]
      refine ⟨_, Function.update store id none, rfl, ⟨.delete id, _, called, rfl, rfl⟩, ?_, ?_⟩
      · simp only [event, Serves, WriteOnce.remove, store_taken holds taken]
      · apply holds_update holds
        · simp [Disk.shard, Disk.record, Disk.enter]
        · exact fun other apart => entered_elsewhere before apart none caller _

end Operations

/-- A move leaves the map as it is, or is one operation on it. -/
theorem move_serves (digest : ∀ data, (sha256 data).length = digestSize) {caller : Nat}
    {before after : Disk} (sound : Sound sha256 levels before)
    (move : Move sha256 Called caller before after) {store : Store Uuid Bytes}
    (holds : Holds sha256 before store) :
    after.log = before.log ∧ Holds sha256 after store ∨
      Operates sha256 Called caller before after store := by
  have effect := move_effect move
  have quiet : (∀ id, after.entries (.shard id) = before.entries (.shard id)) →
      Holds sha256 after store := by
    intro same id
    rw [shard_of_files sound (fun _ _ => content_kept effect) id (same id), holds id]
  cases move with
  | mkdir made grows bound same =>
      subst same
      exact .inl ⟨rfl, quiet fun _ => rfl⟩
  | edit file inode changed held own unsynced creator same =>
      subst same
      exact .inl ⟨rfl, quiet fun _ => rfl⟩
  | sync same =>
      subst same
      exact .inl ⟨rfl, quiet fun _ => rfl⟩
  | create rooted same =>
      subst same
      refine .inl ⟨rfl, quiet fun id => enter_entries _ ?_ _⟩
      exact nofun
  | discard file inode held own same =>
      subst same
      refine .inl ⟨rfl, quiet fun id => enter_entries _ ?_ _⟩
      exact nofun
  | link file inode id data held synced content temp called unlogged same =>
      subst same
      exact .inr (link_operates digest held content temp called holds quiet)
  | «open» id called unlogged same =>
      subst same
      refine .inr (open_operates digest called holds (quiet fun other => ?_))
      rw [open_recorded]
      rfl
  | remove id called unlogged same =>
      subst same
      exact .inr (remove_operates called holds quiet)

/-- The record accounts for the shards on the disk, and each operation on it
for a call. -/
structure Accounted (sha256 : Bytes → Bytes) (Called : Nat → Call → Prop)
    (store : Store Uuid Bytes) (disk : Disk) : Prop where
  ordered : ∃ now, Sequential store (operations disk) now ∧ Holds sha256 disk now
  called : ∀ caller event, (caller, event) ∈ operations disk → Calls sha256 Called caller event

theorem move_accounted (digest : ∀ data, (sha256 data).length = digestSize) {caller : Nat}
    {before after : Disk} (sound : Sound sha256 levels before)
    (move : Move sha256 Called caller before after) {store : Store Uuid Bytes}
    (accounted : Accounted sha256 Called store before) : Accounted sha256 Called store after := by
  obtain ⟨now, history, holds⟩ := accounted.ordered
  rcases move_serves digest sound move holds with ⟨log, still⟩ |
    ⟨access, next, log, calls, served, still⟩
  · have same : operations after = operations before := by rw [operations, log, operations]
    constructor
    · rw [same]
      exact ⟨now, history, still⟩
    · rw [same]
      exact accounted.called
  · have more : operations after = operations before ++ [(caller, event access)] := by
      rw [operations, log, List.map_append, operations]
      rfl
    constructor
    · rw [more]
      exact ⟨next, .next history served, still⟩
    · intro other event member
      rw [more] at member
      rcases List.mem_append.mp member with earlier | last
      · exact accounted.called other event earlier
      · cases List.mem_singleton.mp last
        exact calls

/-- No call is cut short and the node does not crash. -/
def calm : NodeLabel → Bool
  | .fail _ => false
  | .env _ => false
  | _ => true

/-- No call is running, and the disk is what calls that ended have left. -/
structure AtRest (sha256 : Bytes → Bytes) (levels : Nat) (config : NodeConfig)
    (store : Store Uuid Bytes) : Prop where
  sound : Sound sha256 levels config.shared
  idle : ∀ thread job rest, config.threads thread ≠ .running job rest
  fresh : ∀ thread, config.threads thread = .fresh → Untouched thread config.shared
  cleared : ∀ file, config.shared.entries (.temp file) = none
  unrecorded : config.shared.log = []
  holds : Holds sha256 config.shared store

structure Along (sha256 : Bytes → Bytes) (levels : Nat) (Called : Nat → Call → Prop)
    (store : Store Uuid Bytes) (config : NodeConfig) : Prop where
  steady : Steady sha256 levels Called config
  rested : ∀ thread, (∀ job rest, config.threads thread ≠ .running job rest) →
    Clear thread config.shared
  accounted : Accounted sha256 Called store config.shared

theorem rest_along (Called : Nat → Call → Prop) {config : NodeConfig} {store : Store Uuid Bytes}
    (rest : AtRest sha256 levels config store) : Along sha256 levels Called store config where
  steady := by
    refine ⟨⟨rest.sound, fun thread job left running => ?_⟩, rest.fresh⟩
    exact absurd running (rest.idle thread job left)
  rested _ _ file _ _ _ := rest.cleared file
  accounted := by
    have none : operations config.shared = [] := by rw [operations, rest.unrecorded, List.map_nil]
    constructor
    · rw [none]
      exact ⟨store, .refl, rest.holds⟩
    · rw [none]
      exact fun _ _ member => absurd member List.not_mem_nil

theorem set_resting {config : NodeConfig} {thread other : Nat} {status : Status Call Op Res Outcome}
    (idle : ∀ job rest, (config.set thread status).threads other ≠ .running job rest) :
    other = thread ∧ (∀ job rest, status ≠ .running job rest) ∨
      other ≠ thread ∧ ∀ job rest, config.threads other ≠ .running job rest := by
  simp only [threads_set] at idle
  by_cases same : other = thread
  · simp only [if_pos same] at idle
    exact .inl ⟨same, idle⟩
  · simp only [if_neg same] at idle
    exact .inr ⟨same, idle⟩

theorem step_along (digest : ∀ data, (sha256 data).length = digestSize)
    {before after : NodeConfig} {label : NodeLabel} {store : Store Uuid Bytes}
    (along : Along sha256 levels Called store before)
    (taken : Step (node sha256 levels) before label after)
    (called : ∀ thread call, label = .start thread call → Called thread call)
    (calmly : calm label = true) :
    Along sha256 levels Called store after ∧
      Kept (contract sha256 levels Called) before label after := by
  have running : ∀ crash, label ≠ .env crash := by
    rintro crash rfl
    cases calmly
  obtain ⟨steady, kept⟩ := step_steady digest along.steady taken called running
  refine ⟨⟨steady, ?_, ?_⟩, kept⟩
  · intro thread idle
    cases taken with
    | start unused may =>
        rcases set_resting idle with ⟨-, ended⟩ | ⟨-, rested⟩
        · exact absurd rfl (ended _ _)
        · exact along.rested thread rested
    | @act mover job request next answer shared at_op done =>
        rcases set_resting idle with ⟨-, ended⟩ | ⟨apart, rested⟩
        · exact absurd rfl (ended _ _)
        · exact clear_stable thread _ _ along.steady.all.inv steady.all.inv
            ⟨mover, Ne.symm apart, kept⟩ (along.rested thread rested)
    | fail at_op => cases calmly
    | finish at_ret =>
        rcases set_resting idle with ⟨rfl, -⟩ | ⟨-, rested⟩
        · exact kept.2.clear
        · exact along.rested thread rested
    | env done => cases calmly
  · cases taken with
    | start unused may => exact along.accounted
    | act at_op done => exact move_accounted digest along.steady.all.inv kept along.accounted
    | fail at_op => cases calmly
    | finish at_ret => exact along.accounted
    | env done => cases calmly

/-- Each call that has ended has made its one access, and the record only grows. -/
theorem run_along (digest : ∀ data, (sha256 data).length = digestSize)
    {before after : NodeConfig} {labels : List NodeLabel} {store : Store Uuid Bytes}
    (along : Along sha256 levels Called store before)
    (run : Run (Step (node sha256 levels)) before labels after)
    (called : ∀ thread call, .start thread call ∈ labels → Called thread call)
    (calmly : ∀ label ∈ labels, calm label = true) :
    Along sha256 levels Called store after ∧
      (∃ more, after.shared.log = before.shared.log ++ more) ∧
      ∀ thread call out, .finish thread call out ∈ labels →
        ∃ access, (thread, access) ∈ after.shared.log ∧ Answers sha256 call out (event access) := by
  induction run with
  | refl => exact ⟨along, ⟨[], (List.append_nil _).symm⟩, fun _ _ _ member => by cases member⟩
  | @next middle after labels label ran taken ih =>
      obtain ⟨here, ⟨more, grown⟩, answered⟩ :=
        ih (fun thread call member => called thread call (List.mem_append_left _ member))
          (fun label member => calmly label (List.mem_append_left _ member))
      obtain ⟨there, kept⟩ := step_along digest here taken
        (fun thread call same => called thread call
          (List.mem_append_right _ (List.mem_singleton.mpr same.symm)))
        (calmly label (List.mem_append_right _ List.mem_cons_self))
      have grows : ∃ more, after.shared.log = middle.shared.log ++ more := by
        cases taken with
        | act at_op done => exact log_grows (move_effect kept)
        | start _ _ | fail _ | finish _ => exact ⟨[], (List.append_nil _).symm⟩
        | env done => exact ⟨[], by cases done; simp [Disk.crashed]⟩
      obtain ⟨last, longer⟩ := grows
      refine ⟨there, ⟨more ++ last, by rw [longer, grown, List.append_assoc]⟩, ?_⟩
      intro thread call out member
      rcases List.mem_append.mp member with earlier | now
      · obtain ⟨access, logged, answers⟩ := answered thread call out earlier
        exact ⟨access, by rw [longer]; exact List.mem_append_left _ logged, answers⟩
      · obtain rfl := List.mem_singleton.mp now
        obtain ⟨same, done⟩ := kept
        obtain ⟨access, logged, answers⟩ := done.logged
        exact ⟨access, by rw [same]; exact logged, answers⟩

theorem started_ends {before after : NodeConfig} {labels : List NodeLabel}
    (run : Run (Step (node sha256 levels)) before labels after)
    (calmly : ∀ label ∈ labels, calm label = true) {thread : Nat} {call : Call}
    (started : .start thread call ∈ labels) :
    (∃ rest, after.threads thread = .running call rest) ∨
      ∃ out, .finish thread call out ∈ labels := by
  induction run with
  | refl => cases started
  | @next middle after labels label ran taken ih =>
      have now_calm := calmly label (List.mem_append_right _ List.mem_cons_self)
      rcases List.mem_append.mp started with earlier | now
      · rcases ih (fun label member => calmly label (List.mem_append_left _ member)) earlier with
          ⟨rest, running⟩ | ⟨out, ended⟩
        · cases taken with
          | @start mover begun idle may =>
              left
              refine ⟨rest, ?_⟩
              rw [threads_set, if_neg, running]
              rintro rfl
              rw [running] at idle
              exact idle
          | @act mover job request next answer shared at_op done =>
              left
              by_cases same : thread = mover
              · subst mover
                rw [running, Status.running.injEq] at at_op
                obtain ⟨rfl, -⟩ := at_op
                exact ⟨next answer, Function.update_self _ _ _⟩
              · exact ⟨rest, (Function.update_of_ne same _ _).trans running⟩
          | fail at_op => cases now_calm
          | @finish mover job out at_ret =>
              by_cases same : thread = mover
              · subst mover
                rw [running, Status.running.injEq] at at_ret
                obtain ⟨rfl, -⟩ := at_ret
                exact .inr ⟨out, List.mem_append_right _ List.mem_cons_self⟩
              · exact .inl ⟨rest, (Function.update_of_ne same _ _).trans running⟩
          | env done => cases now_calm
        · exact .inr ⟨out, List.mem_append_left _ ended⟩
      · obtain rfl := List.mem_singleton.mp now
        cases taken with
        | start idle may => exact .inl ⟨_, Function.update_self _ _ _⟩

/-- The calls of a run as their callers saw them. -/
def history (sha256 : Bytes → Bytes) (labels : List NodeLabel) :
    History Nat (Call × Outcome) Uuid Bytes where
  invoked := Calls sha256 fun thread call => .start thread call ∈ labels
  returned thread reply := .finish thread reply.1 reply.2 ∈ labels
  agrees reply event := Answers sha256 reply.1 reply.2 event
  precedes first second := ∃ earlier later, labels = earlier ++ later ∧
    (∃ call out, .finish first call out ∈ earlier) ∧ ∃ call, .start second call ∈ later

/-- The operations on the record, in their order, account for the run. -/
theorem run_linearizes (digest : ∀ data, (sha256 data).length = digestSize)
    {before after : NodeConfig} {labels : List NodeLabel} {store : Store Uuid Bytes}
    (rest : AtRest sha256 levels before store)
    (run : Run (Step (node sha256 levels)) before labels after)
    (calmly : ∀ label ∈ labels, calm label = true) :
    ∃ last, Linearizes (history sha256 labels) store (operations after.shared) last ∧
      Holds sha256 after.shared last := by
  obtain ⟨along, -, answered⟩ := run_along digest
    (rest_along (fun thread call => .start thread call ∈ labels) rest) run
    (fun _ _ member => member) calmly
  obtain ⟨last, sequential, holds⟩ := along.accounted.ordered
  have once : ((operations after.shared).map (·.1)).Nodup := by
    rw [operations, List.map_map]
    exact along.steady.all.inv.once
  refine ⟨last, ⟨sequential, once, along.accounted.called, ?_, ?_⟩, holds⟩
  · rintro caller ⟨call, out⟩ returned
    obtain ⟨access, logged, answers⟩ := answered caller call out returned
    exact ⟨event access, List.mem_map_of_mem (f := fun entry => (entry.1, event entry.2)) logged,
      answers⟩
  · rintro ⟨first, asked⟩ ⟨second, wanted⟩ one other
      ⟨earlier, later, rfl, ⟨call, out, ended⟩, begun, started⟩
    -- where the record stood between the end of one and the start of the other
    obtain ⟨middle, ran, runs⟩ := run_split run earlier later rfl
    obtain ⟨half, -, found⟩ := run_along digest
      (rest_along (fun thread call => .start thread call ∈ earlier ++ later) rest) ran
      (fun _ _ member => List.mem_append_left _ member)
      (fun label member => calmly label (List.mem_append_left _ member))
    obtain ⟨-, ⟨more, grown⟩, -⟩ := run_along digest half runs
      (fun _ _ member => List.mem_append_right _ member)
      (fun label member => calmly label (List.mem_append_right _ member))
    obtain ⟨access, logged, -⟩ := found first call out ended
    have split : operations after.shared = operations middle.shared ++
        more.map fun entry => (entry.1, event entry.2) := by
      rw [operations, grown, List.map_append, operations]
    have front : (first, event access) ∈ operations middle.shared :=
      List.mem_map_of_mem (f := fun entry => (entry.1, event entry.2)) logged
    have same : asked = event access :=
      event_unique once one (by rw [split]; exact List.mem_append_left _ front)
    have unlogged := (half.steady.fresh second (started_fresh runs started)).unlogged
    have back : (second, wanted) ∈ more.map fun entry => (entry.1, event entry.2) := by
      rw [split] at other
      rcases List.mem_append.mp other with early | late
      · obtain ⟨entry, member, named⟩ := List.mem_map.mp early
        cases named
        exact absurd (List.mem_map_of_mem member) unlogged
      · exact late
    rw [split, same]
    exact (List.singleton_sublist.mpr front).append (List.singleton_sublist.mpr back)

/-- What the calls of a run, and the directory after it, owe to a write-once map. -/
structure Refines (sha256 : Bytes → Bytes) (labels : List NodeLabel) (after : NodeConfig)
    (store : Store Uuid Bytes) (order : List (Nat × Event Uuid Bytes)) (last : Store Uuid Bytes) :
    Prop where
  linearizes : Linearizes (history sha256 labels) store order last
  entries : ∀ id, after.shared.shard id = (last id).map (shardFile sha256)
  /-- of the writes of an absent id that is not deleted, one succeeds -/
  winner : ∀ id, store id = none → (∀ thread, .start thread (.delete id) ∉ labels) →
    (∃ thread data out, .finish thread (.write id data) out ∈ labels) →
    ∃ winner data, .start winner (.write id data) ∈ labels ∧ last id = some data ∧
      ((∀ job rest, after.threads winner ≠ .running job rest) →
        .finish winner (.write id data) (.wrote (.ok (sha256 data))) ∈ labels) ∧
      ∀ thread other out, .finish thread (.write id other) out ∈ labels →
        thread = winner ∧ out = .wrote (.ok (sha256 data)) ∨
          thread ≠ winner ∧ out = .wrote (.error .shardExists)
  /-- a read returns what one write has stored whole, or nothing -/
  reads : ∀ thread id out, .finish thread (.read id) out ∈ labels →
    out = .bytes (.error .shardNotFound) ∨ ∃ data, out = .bytes (.ok data) ∧
      (store id = some data ∨ ∃ writer, .start writer (.write id data) ∈ labels ∧
        (writer, .put id data true) ∈ order)
  /-- once all calls have ended no temporary file remains -/
  cleared : (∀ thread job rest, after.threads thread ≠ .running job rest) →
    ∀ file, after.shared.entries (.temp file) = none

theorem answers_write {id : Uuid} {data : Bytes} {out : Outcome} {event : Event Uuid Bytes}
    (answers : Answers sha256 (.write id data) out event) :
    ∃ stored, event = .put id data stored ∧
      out = .wrote (if stored then .ok (sha256 data) else .error .shardExists) := by
  cases event with
  | put other value stored =>
      obtain ⟨rfl, rfl, result⟩ := answers
      exact ⟨stored, rfl, result⟩
  | get other found => cases answers
  | remove other removed => cases answers

theorem called_put {labels : List NodeLabel} {thread : Nat} {id : Uuid} {data : Bytes}
    {stored : Bool}
    (calls : Calls sha256 (fun thread call => .start thread call ∈ labels) thread
      (.put id data stored)) : .start thread (.write id data) ∈ labels := by
  obtain ⟨call, out, started, answers⟩ := calls
  cases call with
  | write other value =>
      obtain ⟨rfl, rfl, -⟩ := answers
      exact started
  | read other => cases answers
  | delete other => cases answers

theorem called_remove {labels : List NodeLabel} {thread : Nat} {id : Uuid} {removed : Bool}
    (calls : Calls sha256 (fun thread call => .start thread call ∈ labels) thread
      (.remove id removed)) : .start thread (.delete id) ∈ labels := by
  obtain ⟨call, out, started, answers⟩ := calls
  cases call with
  | write other value => cases answers
  | read other => cases answers
  | delete other =>
      obtain ⟨rfl, -⟩ := answers
      exact started

/-- The first put of an absent id wins, and every other write learns so. -/
theorem one_winner {before after : NodeConfig} {labels : List NodeLabel}
    {store last : Store Uuid Bytes} {order : List (Nat × Event Uuid Bytes)}
    (run : Run (Step (node sha256 levels)) before labels after)
    (calmly : ∀ label ∈ labels, calm label = true)
    (linearizes : Linearizes (history sha256 labels) store order last) (id : Uuid)
    (absent : store id = none) (undeleted : ∀ thread, .start thread (.delete id) ∉ labels)
    (written : ∃ thread data out, .finish thread (.write id data) out ∈ labels) :
    ∃ winner data, .start winner (.write id data) ∈ labels ∧ last id = some data ∧
      ((∀ job rest, after.threads winner ≠ .running job rest) →
        .finish winner (.write id data) (.wrote (.ok (sha256 data))) ∈ labels) ∧
      ∀ thread other out, .finish thread (.write id other) out ∈ labels →
        thread = winner ∧ out = .wrote (.ok (sha256 data)) ∨
          thread ≠ winner ∧ out = .wrote (.error .shardExists) := by
  have answered : ∀ thread data out, .finish thread (.write id data) out ∈ labels →
      ∃ stored, (thread, .put id data stored) ∈ order ∧
        out = .wrote (if stored then .ok (sha256 data) else .error .shardExists) := by
    intro thread data out ended
    obtain ⟨event, member, agrees⟩ := linearizes.returned thread (.write id data, out) ended
    obtain ⟨stored, rfl, result⟩ := answers_write agrees
    exact ⟨stored, member, result⟩
  have kept : ∀ caller removed, (caller, .remove id removed) ∉ order := fun caller removed member =>
    undeleted caller (called_remove (linearizes.invoked caller _ member))
  rcases single_winner linearizes.sequential id absent kept with ⟨-, unput⟩ |
    ⟨winner, data, holds, won, others⟩
  · obtain ⟨thread, data, out, ended⟩ := written
    obtain ⟨stored, member, -⟩ := answered thread data out ended
    exact absurd member (unput thread data stored)
  · have started := called_put (linearizes.invoked winner _ won)
    refine ⟨winner, data, started, holds, ?_, ?_⟩
    · intro idle
      rcases started_ends run calmly started with ⟨rest, running⟩ | ⟨out, ended⟩
      · exact absurd running (idle _ rest)
      · obtain ⟨stored, member, result⟩ := answered winner data out ended
        cases event_unique linearizes.once won member
        rw [result] at ended
        exact ended
    · intro thread other out ended
      obtain ⟨stored, member, result⟩ := answered thread other out ended
      by_cases same : thread = winner
      · subst thread
        cases event_unique linearizes.once won member
        exact .inl ⟨rfl, result⟩
      · rcases others thread other stored member with lost | ⟨won, -⟩
        · subst stored
          exact .inr ⟨same, result⟩
        · exact absurd won same

theorem whole_reads {labels : List NodeLabel} {store last : Store Uuid Bytes}
    {order : List (Nat × Event Uuid Bytes)}
    (linearizes : Linearizes (history sha256 labels) store order last) (thread : Nat) (id : Uuid)
    (out : Outcome) (ended : .finish thread (.read id) out ∈ labels) :
    out = .bytes (.error .shardNotFound) ∨ ∃ data, out = .bytes (.ok data) ∧
      (store id = some data ∨ ∃ writer, .start writer (.write id data) ∈ labels ∧
        (writer, .put id data true) ∈ order) := by
  obtain ⟨event, member, agrees⟩ := linearizes.returned thread (.read id, out) ended
  cases event with
  | put other value stored => cases agrees
  | remove other removed => cases agrees
  | get other found =>
      obtain ⟨rfl, result⟩ := agrees
      cases found with
      | none => exact .inl result
      | some data =>
          right
          refine ⟨data, result, ?_⟩
          rcases found_source linearizes.sequential thread other data member with there |
            ⟨writer, put⟩
          · exact .inl there
          · exact .inr ⟨writer, called_put (linearizes.invoked writer _ put), put⟩

theorem rested_cleared {store : Store Uuid Bytes} {config : NodeConfig}
    (along : Along sha256 levels Called store config)
    (idle : ∀ thread job rest, config.threads thread ≠ .running job rest) (file : Nat) :
    config.shared.entries (.temp file) = none := by
  cases entry : config.shared.entries (.temp file) with
  | none => rfl
  | some target =>
      obtain ⟨rfl, inside⟩ := along.steady.all.inv.temps file target entry
      have held := List.getElem?_eq_getElem inside
      rw [← entry, along.rested _ (idle _) target _ held rfl]

/-- Whatever calls run on the shard directory and however their steps
interleave, they are operations on a write-once map in one order. -/
theorem store_refines (sha256 : Bytes → Bytes)
    (digest : ∀ data, (sha256 data).length = digestSize) (levels : Nat)
    {before after : NodeConfig} {labels : List NodeLabel} {store : Store Uuid Bytes}
    (rest : AtRest sha256 levels before store)
    (run : Run (Step (node sha256 levels)) before labels after)
    (calmly : ∀ label ∈ labels, calm label = true) :
    ∃ order last, Refines sha256 labels after store order last := by
  obtain ⟨last, linearizes, holds⟩ := run_linearizes digest rest run calmly
  obtain ⟨along, -, -⟩ := run_along digest
    (rest_along (fun thread call => .start thread call ∈ labels) rest) run
    (fun _ _ member => member) calmly
  exact ⟨operations after.shared, last, linearizes, holds,
    one_winner run calmly linearizes, whole_reads linearizes, rested_cleared along⟩

def newNode : NodeConfig where
  shared := ⟨1, 0, 0, [], fun _ => none, fun _ => [], []⟩
  threads := fun _ => .fresh

theorem newNode_rest (sha256 : Bytes → Bytes) : AtRest sha256 1 newNode fun _ => none where
  sound := ⟨rfl, Nat.zero_le _, fun _ _ => rfl, nofun, nofun, List.nodup_nil⟩
  idle _ _ _ := nofun
  fresh _ _ := ⟨List.not_mem_nil, nofun⟩
  cleared _ := rfl
  unrecorded := rfl
  holds _ := rfl

abbrev NodeMove := Program.Move Disk Nat Call Crash Op Res

def steps (thread : Nat) (count : Nat) : List NodeMove :=
  List.replicate count (.act thread fun disk request => some (disk.perform thread request).1)

/-- Two writes of one shard up to their `link`, the second before the first;
then a read, and the rest of the writes. -/
def race : List NodeMove :=
  [.start 0 (.write 1 [7]), .start 1 (.write 1 [7]), .start 2 (.read 1)] ++ steps 0 5 ++
    steps 1 6 ++ steps 0 1 ++ steps 2 2 ++ steps 0 1 ++ steps 1 2 ++
    [.finish 0, .finish 1, .finish 2]

def raced (labels : List NodeLabel) : Bool :=
  (labels.any fun
    | .finish 0 _ out => decide (out = .wrote (.error .shardExists))
    | _ => false) &&
  (labels.any fun
    | .finish 1 _ (.wrote (.ok _)) => true
    | _ => false) &&
  labels.any fun
    | .finish 2 _ out => decide (out = .bytes (.ok [7]))
    | _ => false

theorem store_refines_race : ∃ labels after order last,
    Run (Step (node StorageNode.smallLibrary.sha256 1)) newNode labels after ∧
      raced labels = true ∧
      Refines StorageNode.smallLibrary.sha256 labels after (fun _ => none) order last := by
  obtain ⟨labels, after, run, checked⟩ := drive_reaches
    (node StorageNode.smallLibrary.sha256 1) newNode race
    (fun labels _ => raced labels && labels.all calm) (by decide +kernel)
  rw [Bool.and_eq_true, List.all_eq_true] at checked
  obtain ⟨order, last, refines⟩ := store_refines StorageNode.smallLibrary.sha256
    StorageNode.smallLibrary_digests 1 (newNode_rest _) run checked.2
  exact ⟨labels, after, order, last, run, checked.1, refines⟩

end SecureFileSystem.Linearization
