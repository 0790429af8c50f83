import SecureFileSystem.Files

/-!
Rebuilding blocks. A block regenerated from any `k` others is, byte for byte,
the one the upload stored, so it has the checksum of the row it is made for.
-/

namespace SecureFileSystem.Rebuild

open Base Database Fleet Erasure Files

theorem uploadedShards_checksum (platform : Platform) (upload : Upload) (fileId : Uuid)
    (start : Nat) (ids : List Uuid) (nodes : List StorageNode) (blocks : List Bytes) :
    ∀ shard ∈ uploadedShards platform upload fileId start ids (nodes.zip blocks),
      ∃ position block, blocks[position]? = some block ∧ shard.shardIndex = start + position ∧
        shard.checksumSha256 = platform.sha256Hex block := by
  induction nodes generalizing start ids blocks with
  | nil =>
      intro shard member
      cases ids <;> cases member
  | cons node nodes ih =>
      intro shard member
      cases ids with
      | nil => cases member
      | cons id ids =>
      cases blocks with
      | nil => cases member
      | cons block blocks =>
      rcases List.mem_cons.mp member with rfl | later
      · exact ⟨0, block, rfl, rfl, rfl⟩
      · obtain ⟨position, other, found, index, checksum⟩ := ih (start + 1) ids blocks shard later
        exact ⟨position + 1, other, found, by omega, checksum⟩

/-- Any `k` surviving blocks give back the blocks at any indices, in their order,
with the checksums of the rows the upload wrote for them. -/
theorem regenerate_exact (platform : Platform) (upload : Upload) (nonempty : upload.data ≠ [])
    (positive : 1 ≤ upload.k) (mds : Mds platform.zfec upload.k (upload.k + upload.m)) :
    ∃ blocks, encode platform.zfec upload.data upload.k upload.m = .ok blocks ∧
      blocks.length = upload.k + upload.m ∧
      ∀ survivors : Blocks, (survivors.map (·.1)).Nodup →
        (∀ entry ∈ survivors, blocks[entry.1]? = some entry.2) → upload.k ≤ survivors.length →
      ∀ indices : List Nat, (∀ index ∈ indices, index < upload.k + upload.m) →
      ∃ rebuilt, regenerate platform.zfec survivors upload.k upload.m indices = .ok rebuilt ∧
        rebuilt.map some = indices.map (fun index => blocks[index]?) ∧
        ∀ fileId ids (nodes : List StorageNode),
          ∀ shard ∈ uploadedShards platform upload fileId 0 ids (nodes.zip blocks),
          ∀ entry ∈ indices.zip rebuilt, entry.1 = shard.shardIndex →
            platform.sha256Hex entry.2 = shard.checksumSha256 := by
  refine ⟨_, encode_eq platform.zfec upload.data upload.k upload.m nonempty, by simp, ?_⟩
  intro survivors distinct surviving enough indices bounded
  have block_at : ∀ index ∈ indices,
      ((List.range (upload.k + upload.m)).map
        (codeBlock platform.zfec upload.data upload.k upload.m))[index]? =
        some (codeBlock platform.zfec upload.data upload.k upload.m index) := by
    intro index member
    simp [bounded index member]
  refine ⟨_, regenerate_genuine mds positive (genuine_survivors distinct surviving) enough indices,
    ?_, ?_⟩
  · rw [List.map_map]
    apply List.map_congr_left
    intro index member
    exact (block_at index member).symm
  · intro fileId ids nodes shard member entry paired named
    obtain ⟨index, inside, rfl⟩ : ∃ index ∈ indices,
        (index, codeBlock platform.zfec upload.data upload.k upload.m index) = entry := by
      rw [List.zip_map_right, List.mem_map] at paired
      obtain ⟨pair, both, rfl⟩ := paired
      have same : pair.1 = pair.2 := by
        rw [show indices.zip indices = indices.map fun index => (index, index) from
          List.zipWith_self] at both
        obtain ⟨index, -, rfl⟩ := List.mem_map.mp both
        rfl
      exact ⟨pair.1, (List.of_mem_zip both).1, by simp [Prod.map, same]⟩
    obtain ⟨position, block, found, place, checksum⟩ :=
      uploadedShards_checksum platform upload fileId 0 ids nodes _ shard member
    obtain rfl : index = position := named.trans (by omega)
    rw [checksum, Option.some.inj ((block_at index inside).symm.trans found)]

def tinyUpload : Upload := ⟨9, ['f'], ['t'], [3, 0, 2], 2, 1, none⟩

/-- The lost first block and the parity, from the other two blocks. -/
theorem regenerate_exact_parity : ∃ blocks,
    encode parity tinyUpload.data tinyUpload.k tinyUpload.m = .ok blocks ∧
    regenerate parity [(2, [1, 0]), (1, [2, 0])] 2 1 [2, 0] = .ok [[1, 0], [3, 0]] := by
  obtain ⟨blocks, encoded, -, exact_blocks⟩ :=
    regenerate_exact { plain with zfec := parity } tinyUpload (by decide) (by decide) parity_mds
  obtain rfl := Except.ok.inj encoded
  obtain ⟨rebuilt, answered, values, -⟩ :=
    exact_blocks [(2, [1, 0]), (1, [2, 0])] (by decide) (by decide) (by decide) [2, 0] (by decide)
  refine ⟨_, encoded, answered.trans (congrArg _ ?_)⟩
  have same : rebuilt.map some = [[1, 0], [3, 0]].map some := values.trans (by decide)
  exact List.map_injective_iff.mpr (Option.some_injective _) same

end SecureFileSystem.Rebuild
