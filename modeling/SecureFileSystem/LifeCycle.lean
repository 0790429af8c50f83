import SecureFileSystem.Session

/-!
What a committed transaction may do to the catalogue of files and shard rows:
the abstract store behind the services. Each kind of transaction has the
condition under which it may be committed; well-formedness survives them all,
and two inversion lemmas say what one of them can have done to a row.
-/

namespace SecureFileSystem.LifeCycle

open Base Database Session

inductive Transaction where
  | upload (file : File) (shards : List Shard)
  | publish (fileId : Uuid) (event : AuditEvent)
  | retract (fileId : Uuid)
  | revoke (fileId : Uuid) (deletedAt linkVersion : Nat) (event : AuditEvent)
  | discard (ids : List Uuid)
  | repoint (old new node : Uuid)
  | observe (writes : List Write)
  | audit (event : AuditEvent)

def Transaction.writes : Transaction → List Write
  | .upload file shards => [.insertFile file, .insertShards shards]
  | .publish fileId event => [.setAvailable fileId, .audit event]
  | .retract fileId => [.deleteFile fileId]
  | .revoke fileId deletedAt linkVersion event =>
      [.setDeleted fileId deletedAt linkVersion, .audit event]
  | .discard ids => [.deleteShards ids]
  | .repoint old new node => [.repoint old new node]
  | .observe writes => writes
  | .audit event => [.audit event]

/-- Files and shard rows, without the node columns and the audit trail. -/
structure Catalog where
  files : List File
  shards : List Shard

def catalog (db : Db) : Catalog := ⟨db.files, db.shards⟩

def Catalog.shardsOf (before : Catalog) (fileId : Uuid) : List Shard :=
  before.shards.filter (·.fileId = fileId)

theorem catalog_shardsOf (db : Db) (fileId : Uuid) :
    (catalog db).shardsOf fileId = db.shardsOf fileId := rfl

def publishFile (file : File) : File := { file with status := .available }

def revokeFile (deletedAt linkVersion : Nat) (file : File) : File :=
  { file with status := .deleted, deletedAt := some deletedAt, linkVersion := linkVersion }

def repointShard (old new node : Uuid) (shard : Shard) : Shard :=
  if shard.id = old then { shard with id := new, nodeId := node } else shard

def Transaction.effect : Transaction → Catalog → Catalog
  | .upload file shards, ⟨files, rows⟩ => ⟨files ++ [file], rows ++ shards⟩
  | .publish fileId _, ⟨files, rows⟩ => ⟨File.update fileId publishFile files, rows⟩
  | .retract fileId, ⟨files, rows⟩ =>
      ⟨files.filter (·.id ≠ fileId), rows.filter (·.fileId ≠ fileId)⟩
  | .revoke fileId deletedAt linkVersion _, ⟨files, rows⟩ =>
      ⟨File.update fileId (revokeFile deletedAt linkVersion) files, rows⟩
  | .discard ids, ⟨files, rows⟩ => ⟨files, rows.filter (·.id ∉ ids)⟩
  | .repoint old new node, ⟨files, rows⟩ => ⟨files, rows.map (repointShard old new node)⟩
  | .observe _, catalog => catalog
  | .audit _, catalog => catalog

/-- What the constraints and row counts of the database have checked. -/
def Transaction.Admitted : Transaction → Catalog → Prop
  | .upload file shards, ⟨files, rows⟩ =>
      file.id ∉ files.map (·.id) ∧ ((rows ++ shards).map (·.id)).Nodup ∧
        ∀ shard ∈ shards, shard.fileId ∈ (files ++ [file]).map (·.id)
  | .publish fileId _, ⟨files, _⟩ => fileId ∈ files.map (·.id)
  | .revoke fileId _ _ _, ⟨files, _⟩ => fileId ∈ files.map (·.id)
  | .repoint old new node, ⟨_, rows⟩ => ((rows.map (repointShard old new node)).map (·.id)).Nodup
  | _, _ => True

/-- No statement of the services adds, removes or renames a node. -/
theorem write_nodes {db after : Db} (write : Write) (done : db.write write = some after) :
    after.nodes.map (·.id) = db.nodes.map (·.id) := by
  cases write with
  | setLastSeen node seen =>
      cases done
      simp only [List.map_map]
      apply List.map_congr_left
      intro row _
      by_cases hit : row.id = node <;> simp [hit]
  | setStatus node status =>
      cases done
      simp only [List.map_map]
      apply List.map_congr_left
      intro row _
      by_cases hit : row.id = node <;> simp [hit]
  | deleteFile _ => cases done; rfl
  | deleteShards _ => cases done; rfl
  | _ =>
      simp only [Db.write, Option.ite_none_right_eq_some, Option.some.injEq] at done
      obtain ⟨-, rfl⟩ := done
      rfl

theorem commit_nodes {db after : Db} (writes : List Write) (done : db.commit writes = some after) :
    after.nodes.map (·.id) = db.nodes.map (·.id) := by
  induction writes generalizing db with
  | nil =>
      cases done
      rfl
  | cons write rest ih =>
      obtain ⟨middle, one, done⟩ := Option.bind_eq_some_iff.mp done
      exact (ih done).trans (write_nodes write one)

def Hosted (db : Db) : Prop := ∀ shard ∈ db.shards, shard.nodeId ∈ db.nodes.map (·.id)

theorem write_hosted {db after : Db} (write : Write) (done : db.write write = some after)
    (hosted : Hosted db) : Hosted after := by
  have nodes := write_nodes write done
  intro shard member
  rw [nodes]
  cases write with
  | insertShards shards =>
      simp only [Db.write, Db.acceptsShards, Option.ite_none_right_eq_some, Option.some.injEq,
        decide_eq_true_eq] at done
      obtain ⟨⟨-, -, -, known⟩, rfl⟩ := done
      exact (List.mem_append.mp member).elim (hosted shard) (known shard)
  | repoint old new node =>
      simp only [Db.write, Option.ite_none_right_eq_some, Option.some.injEq] at done
      obtain ⟨⟨-, known⟩, rfl⟩ := done
      exact known shard member
  | deleteFile _ => cases done; exact hosted shard (List.mem_filter.mp member).1
  | deleteShards _ => cases done; exact hosted shard (List.mem_filter.mp member).1
  | setLastSeen _ _ => cases done; exact hosted shard member
  | setStatus _ _ => cases done; exact hosted shard member
  | _ =>
      simp only [Db.write, Option.ite_none_right_eq_some, Option.some.injEq] at done
      obtain ⟨-, rfl⟩ := done
      exact hosted shard member

theorem commit_hosted {db after : Db} (writes : List Write) (done : db.commit writes = some after)
    (hosted : Hosted db) : Hosted after := by
  induction writes generalizing db with
  | nil =>
      cases done
      exact hosted
  | cons write rest ih =>
      obtain ⟨middle, one, done⟩ := Option.bind_eq_some_iff.mp done
      exact ih done (write_hosted write one hosted)

def ofNodes : Write → Prop
  | .setLastSeen _ _ | .setStatus _ _ => True
  | _ => False

theorem commit_ofNodes {db after : Db} (writes : List Write) (nodes : ∀ write ∈ writes, ofNodes write)
    (done : db.commit writes = some after) : catalog after = catalog db := by
  induction writes generalizing db with
  | nil =>
      cases done
      rfl
  | cons write rest ih =>
      have here := nodes write List.mem_cons_self
      simp only [Db.commit, Option.bind_eq_some_iff] at done
      obtain ⟨middle, one, done⟩ := done
      rw [ih (fun other member => nodes other (List.mem_cons_of_mem _ member)) done]
      cases write with
      | setLastSeen node seen =>
          cases one
          rfl
      | setStatus node status =>
          cases one
          rfl
      | _ => exact here.elim

theorem commit_effect {db after : Db} (transaction : Transaction)
    (observed : ∀ writes, transaction = .observe writes → ∀ write ∈ writes, ofNodes write)
    (done : db.commit transaction.writes = some after) :
    catalog after = transaction.effect (catalog db) ∧ transaction.Admitted (catalog db) := by
  cases transaction with
  | observe writes => exact ⟨commit_ofNodes writes (observed writes rfl) done, trivial⟩
  | upload file shards =>
      simp only [Transaction.writes, Db.commit, Db.write, Db.acceptsShards,
        Option.bind_eq_some_iff, Option.ite_none_right_eq_some, Option.some.injEq,
        decide_eq_true_eq] at done
      obtain ⟨_, ⟨fresh, rfl⟩, _, ⟨⟨ids, -, owners, -⟩, rfl⟩, rfl⟩ := done
      exact ⟨rfl, fresh.1, ids, owners⟩
  | publish fileId event =>
      simp only [Transaction.writes, Db.commit, Db.write, Option.bind_eq_some_iff,
        Option.ite_none_right_eq_some, Option.some.injEq] at done
      obtain ⟨_, ⟨present, rfl⟩, _, ⟨-, rfl⟩, rfl⟩ := done
      exact ⟨rfl, present⟩
  | retract fileId =>
      cases done
      exact ⟨rfl, trivial⟩
  | revoke fileId deletedAt linkVersion event =>
      simp only [Transaction.writes, Db.commit, Db.write, Option.bind_eq_some_iff,
        Option.ite_none_right_eq_some, Option.some.injEq] at done
      obtain ⟨_, ⟨present, rfl⟩, _, ⟨-, rfl⟩, rfl⟩ := done
      exact ⟨rfl, present⟩
  | discard ids =>
      cases done
      exact ⟨rfl, trivial⟩
  | repoint old new node =>
      simp only [Transaction.writes, Db.commit, Db.write, Option.bind_eq_some_iff,
        Option.ite_none_right_eq_some, Option.some.injEq] at done
      obtain ⟨_, ⟨checks, rfl⟩, rfl⟩ := done
      exact ⟨rfl, checks.1⟩
  | audit event =>
      simp only [Transaction.writes, Db.commit, Db.write, Option.bind_eq_some_iff,
        Option.ite_none_right_eq_some, Option.some.injEq] at done
      obtain ⟨_, ⟨-, rfl⟩, rfl⟩ := done
      exact ⟨rfl, trivial⟩

def newIds : Write → List Uuid
  | .insertFile file => [file.id]
  | .insertShards shards => shards.map (·.id)
  | .repoint _ new _ => [new]
  | _ => []

/-- Every id a committed transaction has ever brought in. -/
def used (shared : Shared) : List Uuid := shared.log.flatMap fun entry => entry.2.flatMap newIds

/-- The columns of a shard row that are written once, at upload. -/
structure Written where
  fileId : Uuid
  shardIndex : Nat
  kind : ShardKind
  checksumSha256 : Text
  sizeBytes : Nat
  deriving DecidableEq

def written (shard : Shard) : Written :=
  ⟨shard.fileId, shard.shardIndex, shard.kind, shard.checksumSha256, shard.sizeBytes⟩

/-- The columns of a file row that never change. -/
def sameFile (file original : File) : Prop :=
  file.id = original.id ∧ file.ownerUserId = original.ownerUserId ∧
  file.originalName = original.originalName ∧ file.sizeBytes = original.sizeBytes ∧
  file.checksumSha256 = original.checksumSha256 ∧ file.dataShards = original.dataShards ∧
  file.parityShards = original.parityShards ∧ file.uploadedAt = original.uploadedAt

structure Complete (file : File) (shards : List Shard) : Prop where
  status : file.status = .uploading
  owned : ∀ shard ∈ shards, shard.fileId = file.id
  indices : shards.map (·.shardIndex) = List.range (file.dataShards + file.parityShards)
  kinds : ∀ shard ∈ shards,
    shard.kind = if shard.shardIndex < file.dataShards then .data else .parity
  nodes : (shards.map (·.nodeId)).Nodup

def Uploaded (shared : Shared) (thread : Tid) (file : File) (shards : List Shard) : Prop :=
  (thread, (Transaction.upload file shards).writes) ∈ shared.log

def Enabled (thread : Tid) (shared : Shared) : Transaction → Prop
  | .upload file shards => Complete file shards ∧
      ∀ id ∈ file.id :: shards.map (·.id), (thread, id) ∈ shared.issued ∧ id ∉ used shared
  | .publish fileId event => (thread, fileId) ∈ shared.issued ∧ fileId ∈ used shared ∧
      event.eventType = .file_uploaded ∧ event.fileId = some fileId ∧
      ∀ file ∈ shared.db.files, file.id = fileId → file.status = .uploading
  | .retract _ => True
  | .revoke fileId _ linkVersion event =>
      event.eventType = .file_deleted ∧ event.fileId = some fileId ∧
      ∀ file ∈ shared.db.files, file.id = fileId →
        (file.status = .available ∧ linkVersion = file.linkVersion + 1) ∨
        (file.status = .deleted ∧ linkVersion = file.linkVersion)
  | .discard ids => ∀ shard ∈ shared.db.shards, shard.id ∈ ids →
      ∀ file ∈ shared.db.files, file.id = shard.fileId → file.status = .deleted
  | .repoint old new node => thread = .worker ∧ (thread, new) ∈ shared.issued ∧
      new ∉ used shared ∧
      ∀ moved ∈ shared.db.shards, moved.id = old →
        ∀ shard ∈ shared.db.shards, shard.fileId = moved.fileId → shard.nodeId ≠ node
  | .observe writes => ∀ write ∈ writes, ofNodes write
  | .audit event => event.eventType ≠ .file_uploaded ∧ event.eventType ≠ .file_deleted

/-- A transaction that publishes or revokes a file says so in the audit trail. -/
structure Audited (writes : List Write) : Prop where
  published : ∀ fileId, .setAvailable fileId ∈ writes → ∃ event, .audit event ∈ writes ∧
    event.eventType = .file_uploaded ∧ event.fileId = some fileId
  revoked : ∀ fileId deletedAt linkVersion, .setDeleted fileId deletedAt linkVersion ∈ writes →
    ∃ event, .audit event ∈ writes ∧ event.eventType = .file_deleted ∧
      event.fileId = some fileId

def recorded (shared : Shared) (thread : Tid) (transaction : Transaction) (db : Db) : Shared :=
  { shared with db := db, log := shared.log ++ [(thread, transaction.writes)] }

/-- Well-formed shared states: ids are drawn before they are used and used once,
and every file still has the rows it was uploaded with, up to their object ids
and nodes. Only a deleted file may have lost some. -/
structure WellFormed (shared : Shared) : Prop where
  issued_nodup : (shared.issued.map (·.2)).Nodup
  used_issued : ∀ id ∈ used shared, id ∈ shared.issued.map (·.2)
  files_used : ∀ file ∈ shared.db.files, file.id ∈ used shared
  shards_used : ∀ shard ∈ shared.db.shards, shard.id ∈ used shared
  files_nodup : (shared.db.files.map (·.id)).Nodup
  shards_nodup : (shared.db.shards.map (·.id)).Nodup
  shards_owned : ∀ shard ∈ shared.db.shards, shard.fileId ∈ shared.db.files.map (·.id)
  nodes_nodup : (shared.db.nodes.map (·.id)).Nodup
  hosted : Hosted shared.db
  audited : ∀ entry ∈ shared.log, Audited entry.2
  uploaded_once : ∀ thread file shards other file' shards',
    Uploaded shared thread file shards → Uploaded shared other file' shards' →
      file.id = file'.id → thread = other ∧ file = file' ∧ shards = shards'
  descends : ∀ file ∈ shared.db.files, ∃ thread original shards,
    Uploaded shared thread original shards ∧ Complete original shards ∧ sameFile file original ∧
    ((shared.db.shardsOf file.id).map written).Sublist (shards.map written) ∧
    (file.status ≠ .deleted →
      (shared.db.shardsOf file.id).map written = shards.map written ∧
      ((shared.db.shardsOf file.id).map (·.nodeId)).Nodup)
  published : ∀ file ∈ shared.db.files, file.status ≠ .uploading → ∃ thread event,
    (thread, (Transaction.publish file.id event).writes) ∈ shared.log ∧
    event.eventType = .file_uploaded ∧ event.fileId = some file.id
  revoked : ∀ file ∈ shared.db.files, file.status = .deleted →
    ∃ thread deletedAt linkVersion event,
      (thread, (Transaction.revoke file.id deletedAt linkVersion event).writes) ∈ shared.log ∧
      event.eventType = .file_deleted ∧ event.fileId = some file.id

def FileChange (transaction : Transaction) (old file : File) : Prop :=
  file = old ∨
  (∃ event, transaction = .publish old.id event ∧ file = publishFile old) ∨
  ∃ deletedAt linkVersion event, transaction = .revoke old.id deletedAt linkVersion event ∧
    file = revokeFile deletedAt linkVersion old

theorem mem_update (fileId : Uuid) (change : File → File) (files : List File) (file : File)
    (member : file ∈ File.update fileId change files) :
    file ∈ files ∨ ∃ old ∈ files, old.id = fileId ∧ file = change old := by
  obtain ⟨old, present, rfl⟩ := List.mem_map.mp member
  by_cases hit : old.id = fileId
  · exact Or.inr ⟨old, present, hit, by simp [hit]⟩
  · exact Or.inl (by simpa [hit] using present)

theorem update_ids (fileId : Uuid) (change : File → File) (files : List File)
    (kept : ∀ file, (change file).id = file.id) :
    (File.update fileId change files).map (·.id) = files.map (·.id) := by
  simp only [File.update, List.map_map]
  apply List.map_congr_left
  intro file _
  by_cases hit : file.id = fileId <;> simp [hit, kept]

/-- A file row after a transaction is an earlier one, changed as its kind says,
or has just been uploaded. -/
theorem effect_files (transaction : Transaction) (before : Catalog) (file : File)
    (member : file ∈ (transaction.effect before).files) :
    (∃ old ∈ before.files, old.id = file.id ∧ FileChange transaction old file) ∨
      ∃ shards, transaction = .upload file shards := by
  cases transaction with
  | upload new shards =>
      rcases List.mem_append.mp member with old | fresh
      · exact Or.inl ⟨file, old, rfl, Or.inl rfl⟩
      · rw [List.mem_singleton.mp fresh]
        exact Or.inr ⟨shards, rfl⟩
  | publish fileId event =>
      rcases mem_update _ _ _ _ member with same | ⟨old, present, rfl, rfl⟩
      · exact Or.inl ⟨file, same, rfl, Or.inl rfl⟩
      · exact Or.inl ⟨old, present, rfl, Or.inr (Or.inl ⟨event, rfl, rfl⟩)⟩
  | retract fileId =>
      exact Or.inl ⟨file, (List.mem_filter.mp member).1, rfl, Or.inl rfl⟩
  | revoke fileId deletedAt linkVersion event =>
      rcases mem_update _ _ _ _ member with same | ⟨old, present, rfl, rfl⟩
      · exact Or.inl ⟨file, same, rfl, Or.inl rfl⟩
      · exact Or.inl ⟨old, present, rfl,
          Or.inr (Or.inr ⟨deletedAt, linkVersion, event, rfl, rfl⟩)⟩
  | discard _ => exact Or.inl ⟨file, member, rfl, Or.inl rfl⟩
  | repoint _ _ _ => exact Or.inl ⟨file, member, rfl, Or.inl rfl⟩
  | observe _ => exact Or.inl ⟨file, member, rfl, Or.inl rfl⟩
  | audit _ => exact Or.inl ⟨file, member, rfl, Or.inl rfl⟩

/-- A shard row after a transaction is an earlier one, has been repointed, or
has just been uploaded. -/
theorem effect_shards (transaction : Transaction) (before : Catalog) (shard : Shard)
    (member : shard ∈ (transaction.effect before).shards) :
    shard ∈ before.shards ∨
      (∃ moved ∈ before.shards, ∃ new node, transaction = .repoint moved.id new node ∧
        shard = { moved with id := new, nodeId := node }) ∨
      ∃ file shards, transaction = .upload file shards ∧ shard ∈ shards := by
  cases transaction with
  | upload file shards =>
      rcases List.mem_append.mp member with old | fresh
      · exact Or.inl old
      · exact Or.inr (Or.inr ⟨file, shards, rfl, fresh⟩)
  | retract _ => exact Or.inl (List.mem_filter.mp member).1
  | discard _ => exact Or.inl (List.mem_filter.mp member).1
  | repoint old new node =>
      obtain ⟨moved, present, rfl⟩ := List.mem_map.mp member
      by_cases hit : moved.id = old
      · subst hit
        exact Or.inr (Or.inl ⟨moved, present, new, node, rfl, by simp [repointShard]⟩)
      · exact Or.inl (by simpa [repointShard, hit] using present)
  | publish _ _ => exact Or.inl member
  | revoke _ _ _ _ => exact Or.inl member
  | observe _ => exact Or.inl member
  | audit _ => exact Or.inl member

theorem fileChange_same {transaction : Transaction} {old file original : File}
    (change : FileChange transaction old file) (same : sameFile old original) :
    sameFile file original := by
  rcases change with rfl | ⟨event, -, rfl⟩ | ⟨deletedAt, linkVersion, event, -, rfl⟩ <;> exact same

end SecureFileSystem.LifeCycle
