import SecureFileSystem.Interference

/-!
The facts handlers carry from one statement to the next, each stable under what
the other threads may do. Two inversion lemmas come first: where a file row and
a shard row after a step can have come from.
-/

namespace SecureFileSystem.Stability

open Base Database Session LifeCycle Ledger Program RelyGuarantee Service Interference

inductive FileMove (thread : Tid) (before : Shared) (file : File) : Prop
  | same (member : file ∈ before.db.files)
  | published (old : File) (member : old ∈ before.db.files)
      (drawn : (thread, old.id) ∈ before.issued) (pending : old.status = .uploading)
      (change : file = publishFile old)
  | revoked (old : File) (deletedAt linkVersion : Nat) (member : old ∈ before.db.files)
      (version : (old.status = .available ∧ linkVersion = old.linkVersion + 1) ∨
        (old.status = .deleted ∧ linkVersion = old.linkVersion))
      (change : file = revokeFile deletedAt linkVersion old)
  | uploaded (drawn : (thread, file.id) ∈ before.issued) (unused : file.id ∉ used before)
      (pending : file.status = .uploading)

inductive ShardMove (thread : Tid) (before : Shared) (shard : Shard) : Prop
  | same (member : shard ∈ before.db.shards)
  | repointed (old : Shard) (new node : Uuid) (member : old ∈ before.db.shards)
      (worker : thread = .worker) (unused : new ∉ used before)
      (change : shard = { old with id := new, nodeId := node })
  | uploaded (unused : shard.id ∉ used before) (unusedFile : shard.fileId ∉ used before)

section Moves
variable {thread : Tid} {before after : Shared}

theorem life_file (life : Life thread before after) (file : File)
    (member : file ∈ after.db.files) : FileMove thread before file := by
  cases life with
  | quiet undisturbed => exact .same (undisturbed.files ▸ member)
  | draw id fresh same =>
      subst same
      exact .same member
  | commit transaction db enabled done same =>
      subst same
      obtain ⟨effect, -⟩ := enabled_effect enabled done
      have files_eq : db.files = (transaction.effect (catalog before.db)).files :=
        congrArg Catalog.files effect
      change file ∈ db.files at member
      rw [files_eq] at member
      rcases effect_files transaction _ file member with ⟨old, present, -, change⟩ | ⟨shards, rfl⟩
      · rcases change with rfl | ⟨event, rfl, change⟩ | ⟨deletedAt, linkVersion, event, rfl, change⟩
        · exact .same present
        · exact .published old present enabled.1 (enabled.2.2.2.2 old present rfl) change
        · exact .revoked old deletedAt linkVersion present (enabled.2.2 old present rfl) change
      · obtain ⟨drawn, unused⟩ := enabled.2 file.id List.mem_cons_self
        exact .uploaded drawn unused enabled.1.status

theorem life_shard (life : Life thread before after) (shard : Shard)
    (member : shard ∈ after.db.shards) : ShardMove thread before shard := by
  cases life with
  | quiet undisturbed => exact .same (undisturbed.shards ▸ member)
  | draw id fresh same =>
      subst same
      exact .same member
  | commit transaction db enabled done same =>
      subst same
      obtain ⟨effect, -⟩ := enabled_effect enabled done
      have shards_eq : db.shards = (transaction.effect (catalog before.db)).shards :=
        congrArg Catalog.shards effect
      change shard ∈ db.shards at member
      rw [shards_eq] at member
      rcases effect_shards transaction _ shard member with
        old | ⟨moved, present, new, node, rfl, change⟩ | ⟨file, shards, rfl, added⟩
      · exact .same old
      · exact .repointed moved new node present enabled.1 enabled.2.2.1 change
      · refine .uploaded (enabled.2 _ (List.mem_cons_of_mem _ (List.mem_map_of_mem added))).2 ?_
        rw [enabled.1.owned shard added]
        exact (enabled.2 file.id List.mem_cons_self).2

theorem life_log (life : Life thread before after) {entry : Tid × List Write}
    (member : entry ∈ before.log) : entry ∈ after.log := by
  cases life with
  | quiet undisturbed => exact undisturbed.log ▸ member
  | draw id fresh same => exact same ▸ member
  | commit transaction db enabled done same => exact same ▸ List.mem_append_left _ member

theorem life_issued (life : Life thread before after) {entry : Tid × Uuid}
    (member : entry ∈ before.issued) : entry ∈ after.issued := by
  cases life with
  | quiet undisturbed => exact undisturbed.issued ▸ member
  | draw id fresh same => exact same ▸ List.mem_cons_of_mem _ member
  | commit transaction db enabled done same => exact same ▸ member

theorem used_mono (life : Life thread before after) {id : Uuid} (member : id ∈ used before) :
    id ∈ used after := by
  obtain ⟨entry, logged, fresh⟩ := List.mem_flatMap.mp member
  exact List.mem_flatMap.mpr ⟨entry, life_log life logged, fresh⟩

theorem life_used (life : Life thread before after) {id : Uuid} (member : id ∈ used after) :
    id ∈ used before ∨ (thread, id) ∈ before.issued := by
  cases life with
  | quiet undisturbed =>
      left
      simpa only [used, undisturbed.log] using member
  | draw fresh _ same =>
      subst same
      exact Or.inl member
  | commit transaction db enabled done same =>
      subst same
      rw [used_recorded] at member
      rcases List.mem_append.mp member with old | new
      · exact Or.inl old
      · exact Or.inr (enabled_newIds enabled id new).1

theorem relies_life (relies : Relies thread before after) :
    ∃ other, other ≠ thread ∧ Life other before after := by
  rcases relies with undisturbed | moved
  · cases thread with
    | api request => exact ⟨.worker, by simp, .quiet undisturbed⟩
    | worker => exact ⟨.api 0, by simp, .quiet undisturbed⟩
  · exact moved

theorem issued_once (wf : WellFormed before) {other : Tid} {id : Uuid}
    (mine : (thread, id) ∈ before.issued) (theirs : (other, id) ∈ before.issued) :
    thread = other :=
  congrArg Prod.fst (List.inj_on_of_nodup_map wf.issued_nodup mine theirs rfl)

end Moves

def Logged (thread : Tid) (writes : List Write) (shared : Shared) : Prop :=
  (thread, writes) ∈ shared.log

def Drawn (thread : Tid) (id : Uuid) (shared : Shared) : Prop :=
  (thread, id) ∈ shared.issued ∧ id ∉ used shared

def OfFile (fileId : Uuid) (holds : File → Prop) (shared : Shared) : Prop :=
  fileId ∈ used shared ∧ ∀ file ∈ shared.db.files, file.id = fileId → holds file

def Pending (thread : Tid) (fileId : Uuid) (shared : Shared) : Prop :=
  (thread, fileId) ∈ shared.issued ∧ OfFile fileId (·.status = .uploading) shared

/-- As a delete found it, or as another delete has left it since. -/
def Standing (fileId : Uuid) (linkVersion : Nat) : Shared → Prop :=
  OfFile fileId fun file =>
    (file.status = .available ∧ file.linkVersion = linkVersion) ∨
      (file.status = .deleted ∧ file.linkVersion = linkVersion + 1)

def Gone (fileId : Uuid) : Shared → Prop := OfFile fileId (·.status = .deleted)

/-- Links of this version are current at best. -/
def Linked (fileId : Uuid) (linkVersion : Nat) : Shared → Prop :=
  OfFile fileId fun file =>
    linkVersion ≤ file.linkVersion ∧ (file.status = .deleted → linkVersion < file.linkVersion)

def Origin (file : File) (shared : Shared) : Prop :=
  ∃ thread original shards, Uploaded shared thread original shards ∧ sameFile file original

def Belongs (id fileId : Uuid) (shared : Shared) : Prop :=
  id ∈ used shared ∧ ∀ row ∈ shared.db.shards, row.id = id → row.fileId = fileId

def Occupied (fileId : Uuid) (nodes : List Uuid) (shared : Shared) : Prop :=
  fileId ∈ used shared ∧ ∀ row ∈ shared.db.shards, row.fileId = fileId → row.nodeId ∈ nodes

/-- What a step has to respect to keep a fact about the rows of a file. -/
theorem life_ofFile {thread : Tid} {before after : Shared} {fileId : Uuid} {holds : File → Prop}
    (life : Life thread before after) (start : OfFile fileId holds before)
    (publish : ∀ old, holds old → old.status = .uploading → (thread, fileId) ∈ before.issued →
      holds (publishFile old))
    (revoke : ∀ old deletedAt linkVersion, holds old →
      (old.status = .available ∧ linkVersion = old.linkVersion + 1) ∨
        (old.status = .deleted ∧ linkVersion = old.linkVersion) →
      holds (revokeFile deletedAt linkVersion old)) :
    OfFile fileId holds after := by
  refine ⟨used_mono life start.1, fun file member named => ?_⟩
  cases life_file life file member with
  | same present => exact start.2 file present named
  | published old present drawn pending change =>
      subst change
      have here : old.id = fileId := named
      exact publish old (start.2 old present here) pending (here ▸ drawn)
  | revoked old deletedAt linkVersion present version change =>
      subst change
      exact revoke old deletedAt linkVersion (start.2 old present named) version
  | uploaded drawn unused _ => exact absurd (named ▸ start.1) unused

theorem life_gone {thread : Tid} {before after : Shared} {fileId : Uuid}
    (life : Life thread before after) (start : Gone fileId before) : Gone fileId after := by
  refine life_ofFile life start ?_ ?_
  · intro old gone pending
    rw [pending] at gone
    cases gone
  · intro old _ _ _ _
    rfl

theorem life_linked {thread : Tid} {before after : Shared} {fileId : Uuid} {linkVersion : Nat}
    (life : Life thread before after) (start : Linked fileId linkVersion before) :
    Linked fileId linkVersion after := by
  refine life_ofFile life start ?_ ?_
  · rintro old ⟨least, -⟩ _ _
    exact ⟨least, nofun⟩
  · rintro old deletedAt version ⟨least, strict⟩ (⟨_, rfl⟩ | ⟨gone, rfl⟩)
    · exact ⟨by simpa [revokeFile] using Nat.le_succ_of_le least,
        fun _ => by simpa [revokeFile] using Nat.lt_succ_of_le least⟩
    · exact ⟨least, fun _ => strict gone⟩

theorem life_belongs {thread : Tid} {before after : Shared} {id fileId : Uuid}
    (life : Life thread before after) (start : Belongs id fileId before) :
    Belongs id fileId after := by
  refine ⟨used_mono life start.1, fun row member named => ?_⟩
  cases life_shard life row member with
  | same present => exact start.2 row present named
  | repointed old new node present worker unused change =>
      subst change
      have here : new = id := named
      exact absurd (here ▸ start.1) unused
  | uploaded unused _ => exact absurd (named ▸ start.1) unused

section Stable
variable {post : Tid → Job → Outcome → Shared → Prop} {thread : Tid}

/-- To be stable is to survive every step of another thread. -/
theorem stable_life {holds : Shared → Prop}
    (kept : ∀ other before after, other ≠ thread → WellFormed before → Life other before after →
      holds before → holds after) :
    Stable (contract post) thread holds := by
  intro before after wf _ relies start
  obtain ⟨other, different, life⟩ := relies_life relies
  exact kept other before after different wf life start

theorem logged_stable (writes : List Write) :
    Stable (contract post) thread (Logged thread writes) :=
  stable_life fun _ _ _ _ _ life member => life_log life member

theorem drawn_stable (id : Uuid) : Stable (contract post) thread (Drawn thread id) := by
  refine stable_life fun other before after different wf life start => ?_
  refine ⟨life_issued life start.1, fun member => ?_⟩
  rcases life_used life member with old | theirs
  · exact start.2 old
  · exact different (issued_once wf theirs start.1)

theorem pending_stable (fileId : Uuid) :
    Stable (contract post) thread (Pending thread fileId) := by
  refine stable_life fun other before after different wf life start => ?_
  refine ⟨life_issued life start.1, life_ofFile life start.2 ?_ ?_⟩
  · intro old _ _ theirs
    exact absurd (issued_once wf theirs start.1) different
  · rintro old deletedAt linkVersion pending (⟨standing, -⟩ | ⟨gone, -⟩)
    · rw [pending] at standing
      cases standing
    · rw [pending] at gone
      cases gone

theorem standing_stable (fileId : Uuid) (linkVersion : Nat) :
    Stable (contract post) thread (Standing fileId linkVersion) := by
  refine stable_life fun other before after _ _ life start => life_ofFile life start ?_ ?_
  · rintro old (⟨standing, -⟩ | ⟨gone, -⟩) pending _
    · rw [pending] at standing
      cases standing
    · rw [pending] at gone
      cases gone
  · rintro old deletedAt version (⟨standing, same⟩ | ⟨gone, same⟩) (⟨before, rfl⟩ | ⟨before, rfl⟩)
    · exact Or.inr ⟨rfl, congrArg (· + 1) same⟩
    · rw [standing] at before
      cases before
    · rw [gone] at before
      cases before
    · exact Or.inr ⟨rfl, same⟩

theorem gone_stable (fileId : Uuid) : Stable (contract post) thread (Gone fileId) :=
  stable_life fun _ _ _ _ _ life start => life_gone life start

theorem linked_stable (fileId : Uuid) (linkVersion : Nat) :
    Stable (contract post) thread (Linked fileId linkVersion) :=
  stable_life fun _ _ _ _ _ life start => life_linked life start

theorem origin_stable (file : File) : Stable (contract post) thread (Origin file) := by
  refine stable_life fun other before after _ _ life start => ?_
  obtain ⟨uploader, original, shards, uploaded, same⟩ := start
  exact ⟨uploader, original, shards, life_log life uploaded, same⟩

theorem belongs_stable (id fileId : Uuid) :
    Stable (contract post) thread (Belongs id fileId) :=
  stable_life fun _ _ _ _ _ life start => life_belongs life start

theorem occupied_stable (fileId : Uuid) (nodes : List Uuid) :
    Stable (contract post) .worker (Occupied fileId nodes) := by
  refine stable_life fun other before after different _ life start => ?_
  refine ⟨used_mono life start.1, fun row member named => ?_⟩
  cases life_shard life row member with
  | same present => exact start.2 row present named
  | repointed old new node present worker unused change => exact absurd worker different
  | uploaded _ unused => exact absurd (named ▸ start.1) unused

end Stable

end SecureFileSystem.Stability
