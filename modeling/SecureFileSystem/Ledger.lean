import SecureFileSystem.LifeCycle

/-!
Well-formedness survives every enabled transaction, and with it the placement
of each file: one field of `WellFormed` after the other, from what the
transaction can have done to the rows.
-/

namespace SecureFileSystem.Ledger

open Base Database Session LifeCycle

section Commit
variable {thread : Tid} {shared : Shared} {transaction : Transaction} {db : Db}

theorem used_recorded : used (recorded shared thread transaction db) =
    used shared ++ transaction.writes.flatMap newIds := by
  simp [used, recorded]

/-- An enabled transaction that commits has its effect and passed its checks. -/
theorem enabled_effect (enabled : Enabled thread shared transaction)
    (done : shared.db.commit transaction.writes = some db) :
    catalog db = transaction.effect (catalog shared.db) ∧
      transaction.Admitted (catalog shared.db) :=
  commit_effect transaction
    (fun _ same write inside => by subst same; exact enabled write inside) done

theorem ofNodes_newIds (write : Write) (node : ofNodes write) : newIds write = [] := by
  cases write <;> first | rfl | exact node.elim

/-- Ids enter the tables only when the committing thread has drawn them, and once. -/
theorem enabled_newIds (enabled : Enabled thread shared transaction) :
    ∀ id ∈ transaction.writes.flatMap newIds, (thread, id) ∈ shared.issued ∧ id ∉ used shared := by
  intro id member
  cases transaction with
  | upload file shards => exact enabled.2 id (by simpa [Transaction.writes, newIds] using member)
  | repoint old new node =>
      have same : id = new := by simpa [Transaction.writes, newIds] using member
      subst same
      exact ⟨enabled.2.1, enabled.2.2.1⟩
  | observe writes =>
      obtain ⟨write, present, fresh⟩ := List.mem_flatMap.mp member
      rw [ofNodes_newIds write (enabled write present)] at fresh
      exact absurd fresh (by simp)
  | _ => simp [Transaction.writes, newIds] at member

theorem logged (entry : Tid × List Write) (before : entry ∈ shared.log) :
    entry ∈ (recorded shared thread transaction db).log :=
  List.mem_append_left _ before

theorem upload_writes {file : File} {shards : List Shard}
    (enabled : Enabled thread shared transaction)
    (same : transaction.writes = (Transaction.upload file shards).writes) :
    transaction = .upload file shards := by
  cases transaction with
  | upload other rows =>
      simp only [Transaction.writes, List.cons.injEq, Write.insertFile.injEq,
        Write.insertShards.injEq, and_true] at same
      rw [same.1, same.2]
  | observe writes =>
      have node := enabled (.insertFile file) (by
        change _ ∈ (Transaction.observe writes).writes
        rw [same]
        simp [Transaction.writes])
      exact node.elim
  | _ => simp [Transaction.writes] at same

theorem uploaded_cases {other : Tid} {file : File} {shards : List Shard}
    (enabled : Enabled thread shared transaction)
    (uploaded : Uploaded (recorded shared thread transaction db) other file shards) :
    Uploaded shared other file shards ∨
      (other = thread ∧ transaction = .upload file shards) := by
  rcases List.mem_append.mp uploaded with before | now
  · exact Or.inl before
  · obtain ⟨same, writes⟩ := Prod.mk.injEq .. ▸ List.mem_singleton.mp now
    exact Or.inr ⟨same, upload_writes enabled writes.symm⟩

end Commit

theorem uploaded_used {shared : Shared} {thread : Tid} {file : File} {shards : List Shard}
    (uploaded : Uploaded shared thread file shards) :
    file.id ∈ used shared ∧ ∀ shard ∈ shards, shard.id ∈ used shared := by
  have ids : ∀ id ∈ file.id :: shards.map (·.id), id ∈ used shared := by
    intro id member
    refine List.mem_flatMap.mpr ⟨_, uploaded, ?_⟩
    simpa [Transaction.writes, newIds] using member
  exact ⟨ids _ List.mem_cons_self,
    fun shard member => ids _ (List.mem_cons_of_mem _ (List.mem_map_of_mem member))⟩

theorem effect_shardsOf {thread : Tid} {shared : Shared} {transaction : Transaction}
    (wf : WellFormed shared) (enabled : Enabled thread shared transaction) (old : File)
    (present : old ∈ shared.db.files)
    (kept : ∃ file ∈ (transaction.effect (catalog shared.db)).files, file.id = old.id) :
    let rows := (transaction.effect (catalog shared.db)).shardsOf old.id
    rows = shared.db.shardsOf old.id ∨
    (rows.Sublist (shared.db.shardsOf old.id) ∧ old.status = .deleted) ∨
    ∃ source new node, transaction = .repoint source new node ∧
      rows = (shared.db.shardsOf old.id).map (repointShard source new node) := by
  have used_old := wf.files_used old present
  cases transaction with
  | upload new shards =>
      left
      have fresh : ∀ shard ∈ shards, shard.fileId ≠ old.id := by
        intro shard member same
        rw [enabled.1.owned shard member] at same
        exact (enabled.2 new.id List.mem_cons_self).2 (same ▸ used_old)
      have none_new : shards.filter (·.fileId = old.id) = [] :=
        List.filter_eq_nil_iff.mpr (by simpa using fresh)
      simp only [Transaction.effect, catalog, Catalog.shardsOf, List.filter_append, Db.shardsOf,
        none_new, List.append_nil]
  | retract fileId =>
      left
      obtain ⟨file, member, same⟩ := kept
      have other : old.id ≠ fileId := by
        rw [← same]
        simpa using (List.mem_filter.mp member).2
      simp only [Transaction.effect, catalog, Catalog.shardsOf, List.filter_filter, Db.shardsOf]
      apply List.filter_congr
      intro shard _
      by_cases mine : shard.fileId = old.id <;> simp [mine, other]
  -- Rows are discarded of deleted files only.
  | discard ids =>
      simp only [Transaction.effect, catalog, Catalog.shardsOf, List.filter_filter, Db.shardsOf]
      by_cases gone : old.status = .deleted
      · refine Or.inr (Or.inl ⟨?_, gone⟩)
        exact List.monotone_filter_right _ (by simp +contextual)
      · left
        apply List.filter_congr
        intro shard member
        by_cases mine : shard.fileId = old.id
        · have stays : shard.id ∉ ids := fun hit =>
            gone (enabled shard member hit old present mine.symm)
          simp [mine, stays]
        · simp [mine]
  | repoint source new node =>
      refine Or.inr (Or.inr ⟨source, new, node, rfl, ?_⟩)
      simp only [Transaction.effect, catalog, Catalog.shardsOf, Db.shardsOf, List.filter_map]
      congr 1
      apply List.filter_congr
      intro shard _
      simp only [Function.comp_apply, repointShard]
      split <;> rfl
  | publish _ _ => exact Or.inl rfl
  | revoke _ _ _ _ => exact Or.inl rfl
  | observe _ => exact Or.inl rfl
  | audit _ => exact Or.inl rfl

theorem written_repoint (source new node : Uuid) (shard : Shard) :
    written (repointShard source new node shard) = written shard := by
  unfold repointShard
  split <;> rfl

theorem repoint_nodes {rows : List Shard} {source new node : Uuid}
    (ids : (rows.map (·.id)).Nodup) (nodes : (rows.map (·.nodeId)).Nodup)
    (free : (∃ moved ∈ rows, moved.id = source) → ∀ shard ∈ rows, shard.nodeId ≠ node) :
    ((rows.map (repointShard source new node)).map (·.nodeId)).Nodup := by
  rw [List.map_map]
  have distinct := List.Nodup.of_map _ ids
  refine (List.nodup_map_iff_inj_on distinct).mpr ?_
  intro left inLeft right inRight same
  by_cases movedLeft : left.id = source <;> by_cases movedRight : right.id = source
  · exact List.inj_on_of_nodup_map ids inLeft inRight (movedLeft.trans movedRight.symm)
  · simp only [Function.comp_apply, repointShard, movedLeft, movedRight, if_true, if_false] at same
    exact absurd same.symm (free ⟨left, inLeft, movedLeft⟩ right inRight)
  · simp only [Function.comp_apply, repointShard, movedLeft, movedRight, if_true, if_false] at same
    exact absurd same (free ⟨right, inRight, movedRight⟩ left inLeft)
  · simp only [Function.comp_apply, repointShard, movedLeft, movedRight, if_false] at same
    exact List.inj_on_of_nodup_map nodes inLeft inRight same

section Preservation
variable {thread : Tid} {shared : Shared} {transaction : Transaction} {db : Db}

/-- The rows of a file across a transaction: nothing written is altered, and
only a deleted file loses rows. -/
theorem descends_kept (wf : WellFormed shared) (enabled : Enabled thread shared transaction)
    (effect : catalog db = transaction.effect (catalog shared.db)) (old file : File)
    (present : old ∈ shared.db.files) (member : file ∈ db.files) (same : old.id = file.id)
    (change : FileChange transaction old file) :
    ∃ other original shards,
      Uploaded (recorded shared thread transaction db) other original shards ∧
      Complete original shards ∧ sameFile file original ∧
      ((db.shardsOf file.id).map written).Sublist (shards.map written) ∧
      (file.status ≠ .deleted →
        (db.shardsOf file.id).map written = shards.map written ∧
        ((db.shardsOf file.id).map (·.nodeId)).Nodup) := by
  obtain ⟨other, original, shards, uploaded, complete, immutable, sublist, whole⟩ :=
    wf.descends old present
  -- A deleted file never comes back.
  have alive : file.status ≠ .deleted → old.status ≠ .deleted := by
    intro standing gone
    rcases change with rfl | ⟨event, rfl, rfl⟩ | ⟨deletedAt, linkVersion, event, -, rfl⟩
    · exact standing gone
    · have pending := enabled.2.2.2.2 old present rfl
      rw [gone] at pending
      cases pending
    · exact standing rfl
  refine ⟨other, original, shards, logged _ uploaded, complete,
    fileChange_same change immutable, ?_⟩
  have files_eq : db.files = (transaction.effect (catalog shared.db)).files :=
    congrArg Catalog.files effect
  have rows := effect_shardsOf wf enabled old present ⟨file, files_eq ▸ member, same.symm⟩
  simp only [← effect, same, catalog_shardsOf] at rows
  rw [same] at sublist whole
  rcases rows with unchanged | ⟨fewer, gone⟩ | ⟨source, new, node, rfl, moved⟩
  · rw [unchanged]
    exact ⟨sublist, fun standing => whole (alive standing)⟩
  · exact ⟨(fewer.map written).trans sublist, fun standing => absurd gone (alive standing)⟩
  · have columns : (db.shardsOf file.id).map written = (shared.db.shardsOf file.id).map written := by
      rw [moved, List.map_map]
      apply List.map_congr_left
      intro shard _
      exact written_repoint source new node shard
    rw [columns]
    refine ⟨sublist, fun standing => ⟨(whole (alive standing)).1, ?_⟩⟩
    rw [moved]
    refine repoint_nodes ?_ (whole (alive standing)).2 ?_
    · exact wf.shards_nodup.sublist (List.filter_sublist.map _)
    · rintro ⟨row, inRows, hit⟩ shard inShards
      obtain ⟨rowIn, rowOf⟩ := List.mem_filter.mp inRows
      obtain ⟨shardIn, shardOf⟩ := List.mem_filter.mp inShards
      simp only [decide_eq_true_eq] at rowOf shardOf
      exact enabled.2.2.2 row rowIn hit shard shardIn (shardOf.trans rowOf.symm)

theorem descends_new (wf : WellFormed shared) (file : File) (shards : List Shard)
    (enabled : Enabled thread shared (.upload file shards))
    (effect : catalog db = (Transaction.upload file shards).effect (catalog shared.db)) :
    ∃ other original rows,
      Uploaded (recorded shared thread (.upload file shards) db) other original rows ∧
      Complete original rows ∧ sameFile file original ∧
      ((db.shardsOf file.id).map written).Sublist (rows.map written) ∧
      (file.status ≠ .deleted →
        (db.shardsOf file.id).map written = rows.map written ∧
        ((db.shardsOf file.id).map (·.nodeId)).Nodup) := by
  have fresh := (enabled.2 file.id List.mem_cons_self).2
  have rows : db.shardsOf file.id = shards := by
    have shards_eq : db.shards = shared.db.shards ++ shards := congrArg Catalog.shards effect
    have none_old : shared.db.shards.filter (·.fileId = file.id) = [] := by
      apply List.filter_eq_nil_iff.mpr
      intro shard member mine
      simp only [decide_eq_true_eq] at mine
      obtain ⟨owner, present, same⟩ := List.mem_map.mp (wf.shards_owned shard member)
      exact fresh (mine ▸ same ▸ wf.files_used owner present)
    have all_new : shards.filter (·.fileId = file.id) = shards :=
      List.filter_eq_self.mpr (by simpa using enabled.1.owned)
    rw [Db.shardsOf, shards_eq, List.filter_append, none_old, all_new, List.nil_append]
  refine ⟨thread, file, shards, ?_, enabled.1, ?_, ?_, ?_⟩
  · exact List.mem_append_right _ (List.mem_singleton.mpr rfl)
  · exact ⟨rfl, rfl, rfl, rfl, rfl, rfl, rfl, rfl⟩
  · rw [rows]
  · intro _
    rw [rows]
    exact ⟨rfl, enabled.1.nodes⟩

theorem published_kept (wf : WellFormed shared) (enabled : Enabled thread shared transaction)
    (old file : File) (present : old ∈ shared.db.files) (same : old.id = file.id)
    (change : FileChange transaction old file) (standing : file.status ≠ .uploading) :
    ∃ other event, (other, (Transaction.publish file.id event).writes) ∈
        (recorded shared thread transaction db).log ∧
      event.eventType = .file_uploaded ∧ event.fileId = some file.id := by
  have earlier : old.status ≠ .uploading → ∃ other event,
      (other, (Transaction.publish file.id event).writes) ∈
        (recorded shared thread transaction db).log ∧
      event.eventType = .file_uploaded ∧ event.fileId = some file.id := by
    intro before
    obtain ⟨other, event, entry, rest⟩ := wf.published old present before
    rw [same] at entry rest
    exact ⟨other, event, logged _ entry, rest⟩
  rcases change with rfl | ⟨event, rfl, rfl⟩ | ⟨deletedAt, linkVersion, event, rfl, rfl⟩
  · exact earlier standing
  · exact ⟨thread, event, List.mem_append_right _ (List.mem_singleton.mpr rfl), enabled.2.2.1,
      enabled.2.2.2.1⟩
  · refine earlier ?_
    rcases enabled.2.2 old present rfl with ⟨status, -⟩ | ⟨status, -⟩ <;> simp [status]

theorem revoked_kept (wf : WellFormed shared) (enabled : Enabled thread shared transaction)
    (old file : File) (present : old ∈ shared.db.files) (same : old.id = file.id)
    (change : FileChange transaction old file) (gone : file.status = .deleted) :
    ∃ other deletedAt linkVersion event,
      (other, (Transaction.revoke file.id deletedAt linkVersion event).writes) ∈
        (recorded shared thread transaction db).log ∧
      event.eventType = .file_deleted ∧ event.fileId = some file.id := by
  rcases change with rfl | ⟨event, rfl, rfl⟩ | ⟨deletedAt, linkVersion, event, rfl, rfl⟩
  · obtain ⟨other, deletedAt, linkVersion, event, entry, rest⟩ := wf.revoked file present gone
    exact ⟨other, deletedAt, linkVersion, event, logged _ entry, rest⟩
  · cases gone
  · exact ⟨thread, deletedAt, linkVersion, event,
      List.mem_append_right _ (List.mem_singleton.mpr rfl), enabled.1, enabled.2.1⟩

theorem effect_files_nodup (wf : WellFormed shared)
    (admitted : transaction.Admitted (catalog shared.db)) :
    ((transaction.effect (catalog shared.db)).files.map (·.id)).Nodup := by
  have before := wf.files_nodup
  cases transaction with
  | upload file shards =>
      simp only [Transaction.effect, catalog, List.map_append, List.map_cons, List.map_nil]
      refine List.Nodup.append before (List.nodup_singleton _) ?_
      simpa using admitted.1
  | publish fileId event =>
      change ((File.update fileId publishFile shared.db.files).map (·.id)).Nodup
      rwa [update_ids fileId publishFile _ fun _ => rfl]
  | retract fileId => exact before.sublist (List.filter_sublist.map _)
  | revoke fileId deletedAt linkVersion event =>
      change ((File.update fileId (revokeFile deletedAt linkVersion) shared.db.files).map
        (·.id)).Nodup
      rwa [update_ids fileId (revokeFile deletedAt linkVersion) _ fun _ => rfl]
  | discard _ => exact before
  | repoint _ _ _ => exact before
  | observe _ => exact before
  | audit _ => exact before

theorem effect_shards_nodup (wf : WellFormed shared)
    (admitted : transaction.Admitted (catalog shared.db)) :
    ((transaction.effect (catalog shared.db)).shards.map (·.id)).Nodup := by
  have before := wf.shards_nodup
  cases transaction with
  | upload file shards => exact admitted.2.1
  | retract fileId => exact before.sublist (List.filter_sublist.map _)
  | discard _ => exact before.sublist (List.filter_sublist.map _)
  | repoint _ _ _ => exact admitted
  | publish _ _ => exact before
  | revoke _ _ _ _ => exact before
  | observe _ => exact before
  | audit _ => exact before

theorem effect_shards_owned (wf : WellFormed shared)
    (admitted : transaction.Admitted (catalog shared.db)) :
    ∀ shard ∈ (transaction.effect (catalog shared.db)).shards,
      shard.fileId ∈ (transaction.effect (catalog shared.db)).files.map (·.id) := by
  have before := wf.shards_owned
  intro shard member
  cases transaction with
  | upload file shards =>
      rcases List.mem_append.mp member with old | fresh
      · simp only [Transaction.effect, List.map_append]
        exact List.mem_append_left _ (before shard old)
      · exact admitted.2.2 shard fresh
  | publish fileId event =>
      change _ ∈ (File.update fileId publishFile shared.db.files).map (·.id)
      rw [update_ids fileId publishFile _ fun _ => rfl]
      exact before shard member
  | retract fileId =>
      obtain ⟨old, other⟩ := List.mem_filter.mp member
      obtain ⟨file, present, same⟩ := List.mem_map.mp (before shard old)
      refine List.mem_map.mpr ⟨file, List.mem_filter.mpr ⟨present, ?_⟩, same⟩
      simpa [same] using other
  | revoke fileId deletedAt linkVersion event =>
      change _ ∈ (File.update fileId (revokeFile deletedAt linkVersion) shared.db.files).map (·.id)
      rw [update_ids fileId (revokeFile deletedAt linkVersion) _ fun _ => rfl]
      exact before shard member
  | discard _ => exact before shard (List.mem_filter.mp member).1
  | repoint old new node =>
      obtain ⟨moved, present, rfl⟩ := List.mem_map.mp member
      have same : (repointShard old new node moved).fileId = moved.fileId := by
        unfold repointShard
        split <;> rfl
      exact same ▸ before moved present
  | observe _ => exact before shard member
  | audit _ => exact before shard member

theorem enabled_audited (enabled : Enabled thread shared transaction) :
    Audited transaction.writes := by
  cases transaction with
  | observe writes =>
      refine ⟨fun fileId member => ?_, fun fileId deletedAt linkVersion member => ?_⟩
      · exact (enabled _ member).elim
      · exact (enabled _ member).elim
  | publish fileId event =>
      refine ⟨fun other member => ⟨event, by simp [Transaction.writes], enabled.2.2.1, ?_⟩, ?_⟩
      · have same : other = fileId := by simpa [Transaction.writes] using member
        exact same ▸ enabled.2.2.2.1
      · intro other deletedAt linkVersion member
        simp [Transaction.writes] at member
  | revoke fileId deletedAt linkVersion event =>
      refine ⟨fun other member => by simp [Transaction.writes] at member, ?_⟩
      intro other time version member
      have same : other = fileId ∧ time = deletedAt ∧ version = linkVersion := by
        simpa [Transaction.writes] using member
      obtain ⟨rfl, -⟩ := same
      exact ⟨event, by simp [Transaction.writes], enabled.1, enabled.2.1⟩
  | _ => exact ⟨by simp [Transaction.writes], by simp [Transaction.writes]⟩

/-- Every enabled transaction that commits leaves the state well formed. -/
theorem commit_wellFormed (wf : WellFormed shared) (enabled : Enabled thread shared transaction)
    (done : shared.db.commit transaction.writes = some db) :
    WellFormed (recorded shared thread transaction db) := by
  obtain ⟨effect, admitted⟩ := enabled_effect enabled done
  have files_eq : db.files = (transaction.effect (catalog shared.db)).files :=
    congrArg Catalog.files effect
  have shards_eq : db.shards = (transaction.effect (catalog shared.db)).shards :=
    congrArg Catalog.shards effect
  have fresh := enabled_newIds enabled
  have still : ∀ id ∈ used shared, id ∈ used (recorded shared thread transaction db) :=
    fun id member => used_recorded ▸ List.mem_append_left _ member
  have now : ∀ id ∈ transaction.writes.flatMap newIds,
      id ∈ used (recorded shared thread transaction db) :=
    fun id member => used_recorded ▸ List.mem_append_right _ member
  constructor
  case issued_nodup => exact wf.issued_nodup
  case used_issued =>
    intro id member
    rw [used_recorded] at member
    rcases List.mem_append.mp member with old | new
    · exact wf.used_issued id old
    · exact List.mem_map_of_mem (fresh id new).1
  case files_used =>
    intro file member
    change file ∈ db.files at member
    rw [files_eq] at member
    rcases effect_files transaction _ file member with ⟨old, present, same, -⟩ | ⟨shards, rfl⟩
    · exact still _ (same ▸ wf.files_used old present)
    · exact now _ (by simp [Transaction.writes, newIds])
  case shards_used =>
    intro shard member
    change shard ∈ db.shards at member
    rw [shards_eq] at member
    rcases effect_shards transaction _ shard member with
      old | ⟨moved, -, new, node, rfl, rfl⟩ | ⟨file, shards, rfl, added⟩
    · exact still _ (wf.shards_used shard old)
    · exact now _ (by simp [Transaction.writes, newIds])
    · exact now _ (by
        simp only [Transaction.writes, List.flatMap_cons, newIds, List.mem_append, List.mem_map]
        exact Or.inr (Or.inl ⟨shard, added, rfl⟩))
  case files_nodup => exact files_eq ▸ effect_files_nodup wf admitted
  case shards_nodup => exact shards_eq ▸ effect_shards_nodup wf admitted
  case shards_owned =>
    change ∀ shard ∈ db.shards, shard.fileId ∈ db.files.map (·.id)
    rw [files_eq, shards_eq]
    exact effect_shards_owned wf admitted
  case nodes_nodup =>
    change (db.nodes.map (·.id)).Nodup
    rw [commit_nodes _ done]
    exact wf.nodes_nodup
  case hosted => exact commit_hosted _ done wf.hosted
  case audited =>
    intro entry member
    rcases List.mem_append.mp member with before | now
    · exact wf.audited entry before
    · rw [List.mem_singleton.mp now]
      exact enabled_audited enabled
  -- A second upload of one id would have needed an unused one.
  case uploaded_once =>
    intro first file shards second file' shards' left right same
    rcases uploaded_cases enabled left with before | ⟨rfl, rfl⟩
    · rcases uploaded_cases enabled right with before' | ⟨rfl, rfl⟩
      · exact wf.uploaded_once first file shards second file' shards' before before' same
      · have unused := (enabled.2 file'.id List.mem_cons_self).2
        exact absurd (same ▸ (uploaded_used before).1) unused
    · rcases uploaded_cases enabled right with before' | ⟨rfl, again⟩
      · have unused := (enabled.2 file.id List.mem_cons_self).2
        exact absurd (same ▸ (uploaded_used before').1) unused
      · cases again
        exact ⟨rfl, rfl, rfl⟩
  -- A row of the later state has stood before, changed or not, or is new.
  case descends =>
    intro file member
    have origin := files_eq ▸ member
    rcases effect_files transaction _ file origin with ⟨old, present, same, change⟩ | ⟨shards, rfl⟩
    · exact descends_kept wf enabled effect old file present member same change
    · exact descends_new wf file shards enabled effect
  case published =>
    intro file member standing
    have origin := files_eq ▸ member
    rcases effect_files transaction _ file origin with ⟨old, present, same, change⟩ | ⟨shards, rfl⟩
    · exact published_kept wf enabled old file present same change standing
    · exact absurd enabled.1.status standing
  case revoked =>
    intro file member gone
    have origin := files_eq ▸ member
    rcases effect_files transaction _ file origin with ⟨old, present, same, change⟩ | ⟨shards, rfl⟩
    · exact revoked_kept wf enabled old file present same change gone
    · rw [enabled.1.status] at gone
      cases gone

end Preservation

end SecureFileSystem.Ledger
