import SecureFileSystem.Exchanges
import SecureFileSystem.Links
import SecureFileSystem.StorageNode
import SecureFileSystem.UuidText
import SecureFileSystem.Service

/-!
`scrub` from the bytes in a node's directory to the call of `repair_file`: the
node's check of the stored digest, the mapping to a status and a header, and
the client's exceptions decide together. A shard is blamed exactly when its node
has answered and does not have it as it was uploaded.
-/

namespace SecureFileSystem.Scrub

open Base Uuid Database Fleet Session Program Execution Exchanges SecureFileSystem.Configuration
  Maintenance Erasure
open Storage (Disk alone checked readShard readShard_alone digestSize)
open StorageNode (Library requireNodeToken validShardId latin1 shardStatusHeader answered handle
  sha256Hex)

def Unrelated (response : HttpResponse) : Prop :=
  response.status ≠ 200 ∧ response.status ≠ 404 ∧ response.corrupt = false

/-- What a read of a shard meets at its node. -/
inductive Condition where
  /-- the node's handlers, over its directory -/
  | up (settings : StorageNode.Settings) (disk : Disk)
  /-- down, timing out, or any other `httpx.HTTPError` -/
  | unreachable
  | failing (response : HttpResponse) (other : Unrelated response)

def getRequest (token : Bytes) (id : Uuid) : StorageNode.Request where
  method := .get
  shardId := uuidText id
  nodeToken := some token
  checksum := none
  contentLength := none
  chunks := []

/-- Only the content of a 200 is read. -/
def contentOf : StorageNode.Body → Bytes
  | .content data => data
  | _ => []

/-- An exception that no handler catches becomes a plain 500. -/
def onWire : Option StorageNode.Response → HttpResponse
  | none => ⟨500, false, []⟩
  | some response =>
      ⟨response.status, response.headers.lookup shardStatusHeader = some "corrupt".toList,
        contentOf response.body⟩

def replyOf (library : Library) (token : Bytes) (id : Uuid) : Condition → Reply
  | .up settings disk =>
      some (onWire (answered (handle library settings 0 (getRequest token id) disk).1))
  | .unreachable => none
  | .failing response _ => some response

def SelfConsistent (library : Library) (raw : Bytes) : Prop :=
  (raw.take digestSize).length = digestSize ∧
    library.sha256 (raw.drop digestSize) = raw.take digestSize

/-- The node accepts the token, and its object is absent, fails its digest, or
is another than the one the row describes. -/
def Blamed (library : Library) (token : Bytes) (shard : Shard) : Condition → Prop
  | .up settings disk => requireNodeToken settings (some token) = .ok () ∧
      (disk.shard shard.id = none ∨ ∃ raw, disk.shard shard.id = some raw ∧
        (¬ SelfConsistent library raw ∨
          sha256Hex library (raw.drop digestSize) ≠ shard.checksumSha256))
  | .unreachable => False
  | .failing _ _ => False

/-- The body of the loop: what it makes of one reply. -/
def verdict (platform : Platform) (shard : Shard) (reply : Reply) : Bool :=
  match getShard reply with
  | .error .shardMissing | .error .shardCorrupt => true
  | .error .nodeError => false
  | .ok data => platform.sha256Hex data ≠ shard.checksumSha256

def note (platform : Platform) (bad : ByFile) (read : (Shard × StorageNode) × Reply) : ByFile :=
  if verdict platform read.1.1 read.2 then bad.add read.1.1.fileId read.1.1.id else bad

theorem checked_cases (library : Library) (raw : Bytes) :
    (checked library.sha256 raw = .ok (raw.drop digestSize) ∧ SelfConsistent library raw) ∨
      (checked library.sha256 raw = .error .shardCorrupted ∧ ¬ SelfConsistent library raw) := by
  unfold checked SelfConsistent
  by_cases damaged : (raw.take digestSize).length ≠ digestSize ∨
      library.sha256 (raw.drop digestSize) ≠ raw.take digestSize
  · right
    refine ⟨if_pos damaged, ?_⟩
    rintro ⟨length, digest⟩
    rcases damaged with short | other
    · exact short length
    · exact other digest
  · left
    refine ⟨if_neg damaged, ?_⟩
    rw [not_or, Decidable.not_not, Decidable.not_not] at damaged
    exact damaged

section Verdict

variable {platform : Platform} {library : Library} (token : Bytes) (shard : Shard)

theorem handle_get (ascii : Links.AsciiLower library.unicode) (settings : StorageNode.Settings)
    (accepted : requireNodeToken settings (some token) = .ok ()) (id : Uuid) (disk : Disk) :
    onWire (answered (handle library settings 0 (getRequest token id) disk).1) =
      match disk.shard id with
      | none => ⟨404, false, []⟩
      | some raw =>
          match checked library.sha256 raw with
          | .ok data => ⟨200, false, data⟩
          | .error _ => ⟨500, true, []⟩ := by
  have canonical : validShardId library (uuidText id) = .ok id := by
    apply (StorageNode.validShardId_canonical library (uuidText id) id).mp
    exact ⟨UuidText.uuidOf_uuidText library.unicode id, (Links.lower_uuidText ascii id).symm⟩
  have admitted : StorageNode.dependencies library settings (getRequest token id) = .ok id := by
    simp only [StorageNode.dependencies, getRequest, accepted, bind, Except.bind, canonical]
  have direct : handle library settings 0 (getRequest token id) disk =
      StorageNode.getShard library 0 id disk := by
    rw [handle, admitted]
    rfl
  obtain ⟨answer, -⟩ := readShard_alone library.sha256 0 id disk
  rw [direct]
  unfold StorageNode.getShard
  generalize alone 0 (readShard library.sha256 id) disk = outcome at answer
  obtain ⟨out, after⟩ := outcome
  dsimp only at answer
  subst answer
  cases held : disk.shard id with
  | none => rfl
  | some raw =>
      dsimp only
      rcases checked_cases library raw with ⟨passes, -⟩ | ⟨fails, -⟩
      · rw [passes]
        rfl
      · rw [fails]
        rfl

theorem handle_refused (settings : StorageNode.Settings)
    (refused : requireNodeToken settings (some token) ≠ .ok ()) (id : Uuid) (disk : Disk) :
    Unrelated (onWire (answered (handle library settings 0 (getRequest token id) disk).1)) := by
  have stopped : ∃ raised, handle library settings 0 (getRequest token id) disk =
      (.error raised, disk) ∧ requireNodeToken settings (some token) = .error raised := by
    cases outcome : requireNodeToken settings (some token) with
    | ok _ => exact absurd outcome refused
    | error raised =>
        refine ⟨raised, ?_, rfl⟩
        simp only [handle, StorageNode.dependencies, getRequest, outcome, bind, Except.bind]
  obtain ⟨raised, direct, outcome⟩ := stopped
  rw [direct]
  unfold requireNodeToken StorageNode.compareDigest at outcome
  dsimp only at outcome
  split at outcome
  · simp only [bind, Except.bind] at outcome
    split at outcome
    · cases outcome
    · cases outcome
      exact ⟨(by decide : (401 : Nat) ≠ 200), (by decide : (401 : Nat) ≠ 404), rfl⟩
  · cases outcome
    exact ⟨(by decide : (500 : Nat) ≠ 200), (by decide : (500 : Nat) ≠ 404), rfl⟩

theorem verdict_blamed (ascii : Links.AsciiLower library.unicode)
    (same : ∀ data, platform.sha256Hex data = sha256Hex library data) (condition : Condition) :
    verdict platform shard (replyOf library token shard.id condition) = true ↔
      Blamed library token shard condition := by
  cases condition with
  | unreachable => simp [replyOf, verdict, getShard, Blamed]
  | failing response other =>
      obtain ⟨ok, missing, corrupt⟩ := other
      simp [replyOf, verdict, getShard, Blamed, ok, missing, corrupt]
  | up settings disk =>
      by_cases accepted : requireNodeToken settings (some token) = .ok ()
      · simp only [Blamed, accepted, true_and, replyOf]
        rw [handle_get token ascii settings accepted]
        cases held : disk.shard shard.id with
        | none => simp [verdict, getShard]
        | some raw =>
            rcases checked_cases library raw with ⟨passes, whole⟩ | ⟨fails, broken⟩
            · simp [verdict, getShard, passes, whole, same]
            · simp [verdict, getShard, fails, broken]
      · obtain ⟨ok, missing, corrupt⟩ :
            Unrelated (onWire (answered (handle library settings 0
              (getRequest token shard.id) disk).1)) :=
          handle_refused token settings accepted shard.id disk
        simp [verdict, getShard, replyOf, Blamed, accepted, ok, missing, corrupt]

end Verdict

def Noted (bad : ByFile) (fileId shardId : Uuid) : Prop :=
  ∃ group ∈ bad, group.1 = fileId ∧ shardId ∈ group.2

theorem add_noted (bad : ByFile) (fileId shardId file id : Uuid) :
    Noted (bad.add fileId shardId) file id ↔
      Noted bad file id ∨ (file = fileId ∧ id = shardId) := by
  unfold Noted ByFile.add
  by_cases known : fileId ∈ bad.map (·.1)
  · rw [if_pos known]
    obtain ⟨first, firstMember, rfl⟩ := List.mem_map.mp known
    constructor
    · rintro ⟨group, member, rfl, inside⟩
      obtain ⟨old, oldMember, rfl⟩ := List.mem_map.mp member
      by_cases same : old.1 = first.1
      · simp only [same, if_true, List.mem_append, List.mem_singleton] at inside ⊢
        rcases inside with old_id | rfl
        · exact .inl ⟨old, oldMember, same, old_id⟩
        · exact .inr ⟨trivial, rfl⟩
      · simp only [same, if_false] at inside ⊢
        exact .inl ⟨old, oldMember, rfl, inside⟩
    · rintro (⟨old, oldMember, rfl, inside⟩ | ⟨rfl, rfl⟩)
      · refine ⟨_, List.mem_map_of_mem oldMember, ?_⟩
        by_cases same : old.1 = first.1
        · simp [same, inside]
        · simp [same, inside]
      · exact ⟨_, List.mem_map_of_mem firstMember, by simp⟩
  · rw [if_neg known]
    simp only [List.mem_append, List.mem_singleton]
    constructor
    · rintro ⟨group, member | rfl, rfl, inside⟩
      · exact .inl ⟨group, member, rfl, inside⟩
      · exact .inr ⟨rfl, by simpa using inside⟩
    · rintro (⟨group, member, rfl, inside⟩ | ⟨rfl, rfl⟩)
      · exact ⟨group, .inl member, rfl, inside⟩
      · exact ⟨_, .inr rfl, rfl, by simp⟩

theorem add_distinct (bad : ByFile) (fileId shardId : Uuid) (distinct : (bad.map (·.1)).Nodup) :
    ((bad.add fileId shardId).map (·.1)).Nodup := by
  unfold ByFile.add
  by_cases known : fileId ∈ bad.map (·.1)
  · rw [if_pos known, List.map_map]
    have same : ∀ group ∈ bad, ((·.1) ∘ fun group : Uuid × List Uuid =>
        if group.1 = fileId then (fileId, group.2 ++ [shardId]) else group) group = group.1 := by
      intro group _
      by_cases here : group.1 = fileId
      · simp [here]
      · simp [here]
    rw [List.map_congr_left same]
    exact distinct
  · rw [if_neg known, List.map_append]
    refine List.nodup_append.mpr ⟨distinct, List.nodup_singleton _, ?_⟩
    rintro file member other new rfl
    rw [List.map_singleton, List.mem_singleton] at new
    rw [new] at member
    exact known member

section Adds
variable {Row : Type} (file id : Row → Uuid)

theorem adds_noted (rows : List Row) (bad : ByFile) (fileId shardId : Uuid) :
    Noted (rows.foldl (fun groups row => groups.add (file row) (id row)) bad) fileId shardId ↔
      Noted bad fileId shardId ∨ ∃ row ∈ rows, file row = fileId ∧ id row = shardId := by
  induction rows generalizing bad with
  | nil => simp
  | cons row rest ih =>
      rw [List.foldl_cons, ih, List.exists_mem_cons_iff, ← or_assoc, add_noted]
      apply or_congr _ Iff.rfl
      apply or_congr Iff.rfl
      constructor
      · rintro ⟨rfl, rfl⟩
        exact ⟨rfl, rfl⟩
      · rintro ⟨rfl, rfl⟩
        exact ⟨rfl, rfl⟩

theorem adds_distinct (rows : List Row) (bad : ByFile) (distinct : (bad.map (·.1)).Nodup) :
    ((rows.foldl (fun groups row => groups.add (file row) (id row)) bad).map (·.1)).Nodup := by
  induction rows generalizing bad with
  | nil => exact distinct
  | cons row rest ih =>
      rw [List.foldl_cons]
      exact ih _ (add_distinct bad _ _ distinct)

end Adds

/-- The loop adds the shards it blames, in order. -/
theorem notes_adds (platform : Platform) (reads : List ((Shard × StorageNode) × Reply))
    (bad : ByFile) : reads.foldl (note platform) bad =
      (reads.filter fun read => verdict platform read.1.1 read.2).foldl
        (fun groups read => groups.add read.1.1.fileId read.1.1.id) bad := by
  rw [List.foldl_filter]
  rfl

theorem notes_noted (platform : Platform) (reads : List ((Shard × StorageNode) × Reply))
    (bad : ByFile) (file id : Uuid) :
    Noted (reads.foldl (note platform) bad) file id ↔ Noted bad file id ∨
      ∃ read ∈ reads, verdict platform read.1.1 read.2 = true ∧ read.1.1.fileId = file ∧
        read.1.1.id = id := by
  rw [notes_adds, adds_noted]
  simp only [List.mem_filter, and_assoc]

theorem notes_distinct (platform : Platform) (reads : List ((Shard × StorageNode) × Reply))
    (bad : ByFile) (distinct : (bad.map (·.1)).Nodup) :
    ((reads.foldl (note platform) bad).map (·.1)).Nodup := by
  rw [notes_adds]
  exact adds_distinct _ _ _ bad distinct

def Eligible (db : Db) (row : Shard × StorageNode) : Prop :=
  (∃ file ∈ db.files, file.id = row.1.fileId ∧ file.status = .available) ∧
    row.2.status = .healthy

instance (db : Db) (row : Shard × StorageNode) : Decidable (Eligible db row) :=
  inferInstanceAs (Decidable (_ ∧ _))

theorem eligible_iff (db : Db) (row : Shard × StorageNode) :
    decide (Eligible db row) = (ofAvailable db row.1 && row.2.status = .healthy) := by
  rw [Bool.eq_iff_iff, decide_eq_true_eq]
  simp [Eligible, ofAvailable]

/-- The read of a shard at its node, with what came back. -/
def get (read : (Shard × StorageNode) × Reply) : Exchange :=
  exchanged (read.1.2.id, .get read.1.1.id) read.2

section Execution

variable {platform : Platform} {others : Shared → Shared → Prop} {before after : Shared}
  {answers : List (Answered Res)}

theorem scrubShards_cons (platform : Platform) (bad : ByFile) (row : Shard × StorageNode)
    (rest : List (Shard × StorageNode)) :
    scrubShards platform bad (row :: rest) = (do
      let reply ← call row.2.id (.get row.1.id)
      scrubShards platform (note platform bad (row, reply)) rest) := by
  obtain ⟨shard, node⟩ := row
  rw [scrubShards]
  congr 1
  funext reply
  unfold note verdict
  dsimp only
  cases outcome : getShard reply with
  | error error =>
      cases error with
      | nodeError => rfl
      | shardMissing => rfl
      | shardCorrupt => rfl
  | ok data =>
      by_cases other : platform.sha256Hex data ≠ shard.checksumSha256
      · simp [other]
      · simp [other]

theorem scrubShards_executes {sample : List (Shard × StorageNode)} {bad result : ByFile}
    (executes : Executes (exec .worker) others (scrubShards platform bad sample) before answers
      result after) :
    ∃ reads : List ((Shard × StorageNode) × Reply), reads.map (·.1) = sample ∧
      exchanges answers = reads.map get ∧ result = reads.foldl (note platform) bad := by
  induction sample generalizing bad before answers with
  | nil =>
      obtain ⟨rfl, rfl, -⟩ := executes_ret executes
      exact ⟨[], rfl, rfl, rfl⟩
  | cons row rest ih =>
      rw [scrubShards_cons] at executes
      obtain ⟨_, handles, _, _, _, sent, awaiting, rfl⟩ := executes_op executes
      obtain ⟨_, replies, _, later, _, heard, turns, rfl⟩ := executes_op awaiting
      obtain ⟨reads, rows, asked, same⟩ := ih turns
      refine ⟨(row, replies.headD none) :: reads, congrArg (row :: ·) rows, ?_, same⟩
      exact (exchanges_call sent heard later).trans (congrArg (_ :: ·) asked)

/-- `repair_file` is called for these groups, one after the other, and for nothing else. -/
inductive Repairs (platform : Platform) (others : Shared → Shared → Prop) :
    ByFile → Shared → List (Answered Res) → Shared → Prop
  | nil {before after : Shared} (moved : Relation.ReflTransGen others before after) :
      Repairs platform others [] before [] after
  | call {fileId : Uuid} {shardIds : List Uuid} {rest : ByFile} {before middle after : Shared}
      {early late : List (Answered Res)} {out : Except ErasureError Nat}
      (repair : Executes (exec .worker) others (repairFile platform fileId shardIds) before early
        out middle)
      (further : Repairs platform others rest middle late after) :
      Repairs platform others ((fileId, shardIds) :: rest) before (early ++ late) after

/-- An exception in one repair keeps the loop from the files behind it. -/
theorem repairFiles_repairs {bad : ByFile} {out : Except ErasureError Nat}
    (executes : Executes (exec .worker) others (repairFiles platform bad) before answers out after) :
    ∃ called left, bad = called ++ left ∧ Repairs platform others called before answers after ∧
      ∀ count, out = .ok count → left = [] := by
  induction bad generalizing before answers out with
  | nil =>
      obtain ⟨rfl, rfl, moved⟩ := executes_ret executes
      exact ⟨[], [], rfl, .nil moved, fun _ _ => rfl⟩
  | cons group rest ih =>
      obtain ⟨fileId, shardIds⟩ := group
      obtain ⟨early, late, result, middle, rfl, repair, next⟩ := executes_bind executes
      cases result with
      | error error =>
          obtain ⟨rfl, rfl, moved⟩ := executes_ret next
          exact ⟨[(fileId, shardIds)], rest, rfl, .call repair (.nil moved), nofun⟩
      | ok repaired =>
          obtain ⟨others, last, more, between, rfl, further, ends⟩ := executes_bind next
          cases more with
          | error error =>
              obtain ⟨rfl, rfl, moved⟩ := executes_ret ends
              obtain ⟨called, left, rfl, repairs, -⟩ := ih (executes_later further moved)
              rw [List.append_nil]
              exact ⟨(fileId, shardIds) :: called, left, rfl, .call repair repairs, nofun⟩
          | ok count =>
              obtain ⟨rfl, rfl, moved⟩ := executes_ret ends
              obtain ⟨called, left, rfl, repairs, all⟩ := ih (executes_later further moved)
              rw [List.append_nil]
              exact ⟨(fileId, shardIds) :: called, left, rfl, .call repair repairs,
                fun _ _ => all count rfl⟩

/-- The query of `scrub` and the limit on it: so many eligible rows, in any order. -/
structure Sampled (settings : Settings) (others : Shared → Shared → Prop) (before : Shared)
    (answers : List (Answered Res)) (rows : List (Shard × StorageNode)) : Prop where
  idle : settings.scrubBatchSize = 0 → rows = []
  drawn : settings.scrubBatchSize ≠ 0 → ∃ here condition found rest,
    Relation.ReflTransGen others before here ∧
      answers = ⟨.selectPlaced condition, found⟩ :: rest ∧
      found.Perm (here.db.placed.filter fun row => Eligible here.db row) ∧
      rows = found.take settings.scrubBatchSize

/-- The reading half of `scrub`, and the repairs it calls for. -/
theorem scrub_executes {settings : Settings} {out : Except ErasureError Nat}
    (executes : Executes (exec .worker) others (scrub platform settings) before answers out after) :
    ∃ (reads : List ((Shard × StorageNode) × Reply)) (early late : List (Answered Res))
        (middle : Shared), Sampled settings others before answers (reads.map (·.1)) ∧
      answers = early ++ late ∧ exchanges early = reads.map get ∧
      Executes (exec .worker) others (repairFiles platform (reads.foldl (note platform) [])) middle
        late out after := by
  unfold scrub at executes
  by_cases idle : settings.scrubBatchSize = 0
  · rw [if_pos idle] at executes
    exact ⟨[], [], answers, before, ⟨fun _ => rfl, fun busy => absurd idle busy⟩, rfl, rfl,
      executes⟩
  · rw [if_neg idle] at executes
    obtain ⟨here, rows, _, rest, moved, selected, reading, rfl⟩ := executes_op executes
    obtain ⟨perm, -⟩ := Option.ite_none_right_eq_some.mp selected
    have parts : Executes (exec .worker) others
        ((scrubShards platform [] (List.take settings.scrubBatchSize rows)).bind
          (repairFiles platform)) _ rest out after := reading
    obtain ⟨early, late, bad, middle, rfl, turns, repairs⟩ := executes_bind parts
    obtain ⟨reads, sample, asked, rfl⟩ := scrubShards_executes turns
    refine ⟨reads, ⟨_, rows⟩ :: early, late, middle, ⟨fun none => absurd none idle, fun _ => ?_⟩,
      rfl, asked, repairs⟩
    simp only [← eligible_iff] at perm
    exact ⟨here, _, rows, early ++ late, moved, rfl, perm, sample⟩

end Execution

/-- The groups name exactly the shards that deserve it, each under its file. -/
structure Blames (library : Library) (token : Bytes)
    (reads : List ((Shard × StorageNode) × Condition)) (bad : ByFile) : Prop where
  distinct : (bad.map (·.1)).Nodup
  exact : ∀ file id, Noted bad file id ↔ ∃ read ∈ reads, Blamed library token read.1.1 read.2 ∧
    read.1.1.fileId = file ∧ read.1.1.id = id

/-- Scrub has drawn a sample, sent one GET for each of its rows to the row's node,
and then had `repair_file` called for the groups. Whatever conditions the replies
come from, the groups are those of the bad shards. -/
structure Scrubs (platform : Platform) (library : Library) (token : Bytes) (settings : Settings)
    (others : Shared → Shared → Prop) (before : Shared) (answers : List (Answered Res))
    (out : Except ErasureError Nat) (after : Shared)
    (reads : List ((Shard × StorageNode) × Reply)) (bad : ByFile) : Prop where
  sampled : Sampled settings others before answers (reads.map (·.1))
  steps : ∃ early late middle called left, answers = early ++ late ∧
    exchanges early = reads.map get ∧ bad = called ++ left ∧
      Repairs platform others called middle late after ∧ ∀ count, out = .ok count → left = []
  blames : ∀ met : List ((Shard × StorageNode) × Condition),
    reads = met.map (fun read => (read.1, replyOf library token read.1.1.id read.2)) →
      Blames library token met bad

def diskOf (id : Uuid) (raw : Bytes) : Disk :=
  ⟨1, 1, 1, [⟨raw, true, 0⟩], fun name => if name = .shard id then some 0 else none,
    fun _ => [], []⟩

def smallPlatform : Platform := { plain with sha256Hex := sha256Hex StorageNode.smallLibrary }

def threeReads : Settings := { Service.smallSettings with scrubBatchSize := 3 }

def availableFile : File :=
  ⟨1, 1, ['a'], [], 1, smallDigest, 1, 1, 3, .available, 0, none⟩

def replica (number : Nat) : Shard :=
  ⟨BitVec.ofNat 128 number, 1, number - 1, .data, BitVec.ofNat 128 number,
    sha256Hex StorageNode.smallLibrary [7], 1⟩

def replicaRow (number : Nat) : Shard × StorageNode :=
  (replica number, Service.healthyNode (BitVec.ofNat 128 number))

def replicated (flights : List (Flight Tid)) : Shared :=
  ⟨0, ⟨[availableFile], [replica 1, replica 2, replica 3, replica 4],
    [Service.healthyNode 1, Service.healthyNode 2, Service.healthyNode 3, Service.healthyNode 4],
    []⟩, [], [], fun _ _ => none, flights⟩

/-- The file is gone when `repair_file` looks for it. -/
def goneFile (flights : List (Flight Tid)) : Shared :=
  { replicated flights with db := { (replicated flights).db with files := [], shards := [] } }

def readFlight (number : Nat) (state : FlightState) (reply : Option Reply) : Flight Tid :=
  ⟨.worker, BitVec.ofNat 128 number, .get (BitVec.ofNat 128 number), state, reply⟩

/-- The third node is down, the first has its shard, and the file of the second is cut short. -/
def threeMet : List ((Shard × StorageNode) × Condition) :=
  [(replicaRow 3, .unreachable),
    (replicaRow 1, .up StorageNode.smallSettings
      (diskOf 1 (Storage.shardFile StorageNode.smallLibrary.sha256 [7]))),
    (replicaRow 2, .up StorageNode.smallSettings (diskOf 2 [7]))]

def threeAnswers : List (Answered Res) :=
  [⟨.selectPlaced fun db shard node => ofAvailable db shard && node.status = .healthy,
      [replicaRow 3, replicaRow 1, replicaRow 2, replicaRow 4]⟩,
    ⟨.send [(3, .get 3)], [0]⟩, ⟨.await [0], [none]⟩,
    ⟨.send [(1, .get 1)], [1]⟩, ⟨.await [1], [some ⟨200, false, [7]⟩]⟩,
    ⟨.send [(2, .get 2)], [2]⟩, ⟨.await [2], [some ⟨500, true, []⟩]⟩,
    ⟨.selectFiles fun _ file => file.id = 1, []⟩]

def afterReads : List (Flight Tid) :=
  [readFlight 3 .lost (some none),
    readFlight 1 (.answered ⟨200, false, [7]⟩) (some (some ⟨200, false, [7]⟩)),
    readFlight 2 (.answered ⟨500, true, []⟩) (some (some ⟨500, true, []⟩))]

theorem scrub_small : Executes (exec .worker) (fun _ _ => True) (scrub smallPlatform threeReads)
    (replicated []) threeAnswers (.ok 0) (goneFile afterReads) := by
  have selected : exec .worker (replicated [])
      (.selectPlaced fun db shard node => ofAvailable db shard && node.status = .healthy)
      [replicaRow 3, replicaRow 1, replicaRow 2, replicaRow 4] = some (replicated []) := by
    have all : List.Perm [replicaRow 3, replicaRow 1, replicaRow 2, replicaRow 4]
        ((replicated []).db.placed.filter fun row =>
          ofAvailable (replicated []).db row.1 && row.2.status = .healthy) := by decide +kernel
    rw [exec, if_pos all]
  let anything : Shared → Shared → Prop := fun _ _ => True
  have third : anything (replicated [readFlight 3 .pending none])
    (replicated [readFlight 3 .lost none]) := trivial
  have first : anything
    (replicated (afterReads.take 1 ++ [readFlight 1 .pending none]))
    (replicated (afterReads.take 1 ++ [readFlight 1 (.answered ⟨200, false, [7]⟩) none])) := trivial
  have second : anything
    (replicated (afterReads.take 2 ++ [readFlight 2 .pending none]))
    (replicated (afterReads.take 2 ++ [readFlight 2 (.answered ⟨500, true, []⟩) none])) := trivial
  have gone : anything (replicated afterReads) (goneFile afterReads) := trivial
  apply Executes.op selected
  apply Executes.op rfl
  apply Executes.wait third
  apply Executes.op rfl
  apply Executes.op rfl
  apply Executes.wait first
  apply Executes.op rfl
  apply Executes.op rfl
  apply Executes.wait second
  apply Executes.op rfl
  apply Executes.wait gone
  apply Executes.op rfl
  exact .ret

theorem small_ascii : Links.AsciiLower StorageNode.smallLibrary.unicode := fun _ _ => rfl

theorem reads_unique {reads others : List ((Shard × StorageNode) × Reply)}
    (rows : reads.map (·.1) = others.map (·.1)) (asked : reads.map get = others.map get) :
    reads = others := by
  induction reads generalizing others with
  | nil => exact (List.map_eq_nil_iff.mp rows.symm).symm
  | cons read rest ih =>
      cases others with
      | nil => cases rows
      | cons other more =>
          obtain ⟨row, laterRows⟩ := List.cons.inj rows
          obtain ⟨same, later⟩ := List.cons.inj asked
          have reply : read.2 = other.2 := Option.some.inj (Exchange.mk.inj same).2.2
          rw [ih laterRows later, Prod.ext row reply]

def threeHeard : List ((Shard × StorageNode) × Reply) :=
  threeMet.map fun read => (read.1, replyOf StorageNode.smallLibrary (List.replicate 32 107)
    read.1.1.id read.2)

theorem threeAnswers_reads {reads : List ((Shard × StorageNode) × Reply)}
    {early late : List (Answered Res)}
    (rows : reads.map (·.1) = [replicaRow 3, replicaRow 1, replicaRow 2])
    (split : threeAnswers = early ++ late) (asked : exchanges early = reads.map get) :
    reads = threeHeard := by
  have whole : ∀ exchange ∈ exchanges early, exchange.reply.isSome = true := by
    intro exchange member
    rw [asked] at member
    obtain ⟨read, -, rfl⟩ := List.mem_map.mp member
    rfl
  have all := exchanges_append late whole
  have told : exchanges threeAnswers = threeHeard.map get ++ [] := by decide +kernel
  rw [← split, asked, told] at all
  have count : (threeHeard.map get).length = (reads.map get).length := by
    have three := congrArg List.length rows
    rw [List.length_map] at three
    rw [List.length_map, List.length_map, three]
    rfl
  exact reads_unique rows (List.append_inj_left all count).symm

end SecureFileSystem.Scrub
