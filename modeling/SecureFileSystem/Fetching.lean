import SecureFileSystem.Reading

/-!
How many shards a download reads. `answered` runs a program whose requests are
answered by their position; the fallback loop then reads a prefix of the
candidates, and keeps exactly the verified blocks of that prefix.
-/

namespace SecureFileSystem.Fetching

open Base Database Fleet Session Program Transition Erasure Files Service Reading

/-- A program that only talks to nodes; the reply to the request at a position
is fixed in advance. `sent` holds the requests so far. -/
def answered {Out : Type} (reply : Nat → Reply) :
    List (Uuid × NodeRequest) → Async Out → Option (List (Uuid × NodeRequest) × Out)
  | sent, .ret out => some (sent, out)
  | sent, .op (.send requests) next =>
      answered reply (sent ++ requests) (next (List.range' sent.length requests.length))
  | sent, .op (.await handles) next => answered reply sent (next (handles.map reply))
  | _, .op _ _ => none

theorem answered_gather {Out : Type} (reply : Nat → Reply) (sent requests : List (Uuid × NodeRequest))
    (next : List Reply → Async Out) :
    answered reply sent ((gather requests).bind next) =
      answered reply (sent ++ requests)
        (next ((List.range' sent.length requests.length).map reply)) := rfl

section Candidates
variable (platform : Platform) (outcome : Shard × StorageNode → Reply)

/-- The block that a read of this candidate contributes, under its index. -/
def harvest (row : Shard × StorageNode) : Option (Nat × Bytes) :=
  match getShard (outcome row) with
  | .ok block =>
      if platform.sha256Hex block = row.1.checksumSha256 then some (row.1.shardIndex, block) else none
  | .error _ => none

def good (row : Shard × StorageNode) : Bool := (harvest platform outcome row).isSome

variable {platform outcome}

theorem harvest_sound {row : Shard × StorageNode} {entry : Nat × Bytes}
    (got : harvest platform outcome row = some entry) :
    getShard (outcome row) = .ok entry.2 ∧ entry.1 = row.1.shardIndex ∧
      platform.sha256Hex entry.2 = row.1.checksumSha256 := by
  unfold harvest at got
  split at got
  · rename_i block read
    obtain ⟨same, gained⟩ := Option.ite_none_right_eq_some.mp got
    cases gained
    exact ⟨read, rfl, same⟩
  · contradiction

theorem harvest_indices (rows : List (Shard × StorageNode)) :
    ((rows.filterMap (harvest platform outcome)).map Prod.fst).Sublist
      (rows.map fun row => row.1.shardIndex) := by
  induction rows with
  | nil => exact List.Sublist.slnil
  | cons row rest ih =>
      cases got : harvest platform outcome row with
      | none =>
          rw [List.filterMap_cons_none got]
          exact ih.cons _
      | some entry =>
          rw [List.filterMap_cons_some got, List.map_cons, List.map_cons, (harvest_sound got).2.1]
          exact ih.cons_cons _

theorem harvest_count (rows : List (Shard × StorageNode)) :
    (rows.filterMap (harvest platform outcome)).length = rows.countP (good platform outcome) :=
  List.length_filterMap_eq_countP

/-- One batch adds what its reads contribute, nothing else, and replaces nothing. -/
theorem collect_harvest (collected : Blocks) (batch : List (Shard × StorageNode))
    (apart : (collected.map Prod.fst ++ batch.map fun row => row.1.shardIndex).Nodup) :
    collect platform collected (batch.map fun row => (row, outcome row)) =
      collected ++ batch.filterMap (harvest platform outcome) := by
  induction batch generalizing collected with
  | nil => simp [collect]
  | cons row rest ih =>
      have fresh : row.1.shardIndex ∉ collected.map Prod.fst := by
        intro taken
        exact List.disjoint_of_nodup_append apart taken (by simp)
      have fewer : (collected.map Prod.fst ++ rest.map fun row => row.1.shardIndex).Nodup :=
        apart.sublist ((List.sublist_cons_self _ _).append_left _)
      simp only [List.map_cons, collect]
      cases read : getShard (outcome row) with
      | error error =>
          have failed : harvest platform outcome row = none := by simp [harvest, read]
          rw [List.filterMap_cons_none failed]
          exact ih collected fewer
      | ok block =>
          simp only
          split
          · rename_i mismatch
            have failed : harvest platform outcome row = none := by simp [harvest, read, mismatch]
            rw [List.filterMap_cons_none failed]
            exact ih collected fewer
          · rename_i same
            have gained : harvest platform outcome row = some (row.1.shardIndex, block) := by
              simp [harvest, read, Decidable.of_not_not same]
            rw [List.filterMap_cons_some gained, set_new block fresh, ih _ (by simpa using apart),
              List.append_assoc, List.singleton_append]

end Candidates

def replies (candidates : List (Shard × StorageNode)) (outcome : Shard × StorageNode → Reply)
    (handle : Nat) : Reply :=
  candidates[handle]?.bind outcome

/-- What the loop has done when it is left. -/
structure Fetched (platform : Platform) (k : Nat) (candidates : List (Shard × StorageNode))
    (outcome : Shard × StorageNode → Reply) (read : List (Shard × StorageNode)) (blocks : Blocks) :
    Prop where
  reads : read <+: candidates
  once : read.Nodup
  verified : ∀ entry ∈ blocks, ∃ row ∈ read, getShard (outcome row) = .ok entry.2 ∧
    entry.1 = row.1.shardIndex ∧ platform.sha256Hex entry.2 = row.1.checksumSha256
  indices : (blocks.map Prod.fst).Nodup
  enough : blocks.length = min k (candidates.countP (good platform outcome))
  minimal : blocks.length = k →
    read.length = k + read.countP fun row => !good platform outcome row
  ended : blocks.length = k ∨ read = candidates

section Loop
variable {platform : Platform} {outcome : Shard × StorageNode → Reply} {k : Nat}

theorem replies_batch (done batch later : List (Shard × StorageNode)) :
    (List.range' (getRequests done).length (getRequests batch).length).map
      (replies (done ++ (batch ++ later)) outcome) = batch.map outcome := by
  apply List.ext_getElem
  · simp [getRequests]
  · intro index left right
    have inside : index < batch.length := by simpa using right
    simp [replies, getRequests, List.getElem?_append_right, List.getElem?_append_left inside,
      List.getElem?_eq_getElem inside]

/-- Whatever has been read so far, the loop goes on to a prefix of the rest, and
its blocks are what all the reads contribute. -/
theorem fetchRounds_answered (fuel : Nat) (done remaining : List (Shard × StorageNode))
    (distinct : ((done ++ remaining).map fun row => row.1.shardIndex).Nodup)
    (few : (done.filterMap (harvest platform outcome)).length ≤ k)
    (fuelled : remaining.length ≤ fuel) :
    ∃ read later, remaining = read ++ later ∧
      answered (replies (done ++ remaining) outcome) (getRequests done)
        (fetchRounds platform k fuel (done.filterMap (harvest platform outcome)) remaining) =
          some (getRequests (done ++ read), (done ++ read).filterMap (harvest platform outcome)) ∧
      ((done ++ read).filterMap (harvest platform outcome)).length ≤ k ∧
      (((done ++ read).filterMap (harvest platform outcome)).length = k ∨ later = []) := by
  induction fuel generalizing done remaining with
  | zero =>
      have empty : remaining = [] := List.length_eq_zero_iff.mp (Nat.le_zero.mp fuelled)
      subst empty
      exact ⟨[], [], rfl, by rw [List.append_nil]; rfl, by rwa [List.append_nil], Or.inr rfl⟩
  | succ fuel ih =>
      unfold fetchRounds
      split
      · rename_i going
        obtain ⟨short, more⟩ := going
        -- the next batch is as long as what is missing, so it cannot bring too many blocks
        have size := List.length_take_le (k - (done.filterMap (harvest platform outcome)).length)
          remaining
        have shorter : (remaining.drop
            (k - (done.filterMap (harvest platform outcome)).length)).length ≤ fuel := by
          have some := List.length_pos_iff.mpr more
          rw [List.length_drop]
          omega
        have whole := List.take_append_drop
          (k - (done.filterMap (harvest platform outcome)).length) remaining
        dsimp only
        generalize remaining.take
          (k - (done.filterMap (harvest platform outcome)).length) = batch at size whole ⊢
        generalize remaining.drop
          (k - (done.filterMap (harvest platform outcome)).length) = later at whole shorter ⊢
        subst whole
        have apart : ((done.filterMap (harvest platform outcome)).map Prod.fst ++
            batch.map fun row => row.1.shardIndex).Nodup := by
          rw [List.map_append, List.map_append, ← List.append_assoc] at distinct
          exact (List.nodup_append.mp distinct).1.sublist
            ((harvest_indices done).append (List.Sublist.refl _))
        have bounded : ((done ++ batch).filterMap (harvest platform outcome)).length ≤ k := by
          have part := List.length_filterMap_le (harvest platform outcome) batch
          rw [List.filterMap_append, List.length_append]
          omega
        obtain ⟨read, rest, rfl, settled, limit, ends⟩ := ih (done ++ batch) later
          (by rwa [List.append_assoc]) bounded shorter
        refine ⟨batch ++ read, rest, (List.append_assoc ..).symm, ?_, ?_, ?_⟩
        · change answered _ _ ((gather (getRequests batch)).bind _) = _
          have paired : batch.zip (batch.map outcome) = batch.map fun row => (row, outcome row) := by
            conv_lhs => rw [← List.map_id batch, List.map_map, List.zip_map']
            rfl
          have sent : getRequests done ++ getRequests batch = getRequests (done ++ batch) :=
            (List.map_append ..).symm
          rw [answered_gather, replies_batch, paired, collect_harvest _ _ apart,
            ← List.filterMap_append, sent, ← List.append_assoc done batch read, ← settled,
            List.append_assoc done batch]
        · rwa [← List.append_assoc]
        · rwa [← List.append_assoc]
      · rename_i stop
        rw [not_and_or, Nat.not_lt, Decidable.not_not] at stop
        refine ⟨[], remaining, rfl, by rw [List.append_nil]; rfl, by rwa [List.append_nil], ?_⟩
        rw [List.append_nil]
        exact stop.imp (Nat.le_antisymm few) id

theorem fetchRounds_empty (fuel : Nat) (collected : Blocks) :
    fetchRounds platform k fuel collected [] = .ret collected := by
  cases fuel with
  | zero => rfl
  | succ fuel => simp [fetchRounds]

/-- As much fuel as there are candidates is as good as any more. -/
theorem fetchRounds_fuel (fuel other : Nat) (collected : Blocks)
    (remaining : List (Shard × StorageNode)) (one : remaining.length ≤ fuel)
    (two : remaining.length ≤ other) : fetchRounds platform k fuel collected remaining =
      fetchRounds platform k other collected remaining := by
  induction fuel generalizing other collected remaining with
  | zero =>
      have empty : remaining = [] := List.length_eq_zero_iff.mp (Nat.le_zero.mp one)
      rw [empty, fetchRounds_empty, fetchRounds_empty]
  | succ fuel ih =>
      cases other with
      | zero =>
          have empty : remaining = [] := List.length_eq_zero_iff.mp (Nat.le_zero.mp two)
          rw [empty, fetchRounds_empty, fetchRounds_empty]
      | succ other =>
          unfold fetchRounds
          split
          · rename_i going
            have some := List.length_pos_iff.mpr going.2
            dsimp only
            congr 1
            funext results
            apply ih
            · rw [List.length_drop]
              omega
            · rw [List.length_drop]
              omega
          · rfl

/-- The loop ends by itself, has read a prefix of the candidates, each once, and
has as many blocks as it could get, up to `k`. -/
theorem fetchBlocks_reads (platform : Platform) (k : Nat) (candidates : List (Shard × StorageNode))
    (outcome : Shard × StorageNode → Reply)
    (distinct : (candidates.map fun row => row.1.shardIndex).Nodup) :
    ∃ read blocks,
      answered (replies candidates outcome) [] (fetchBlocks platform candidates k) =
        some (getRequests read, blocks) ∧
      (∀ fuel, candidates.length ≤ fuel →
        answered (replies candidates outcome) [] (fetchRounds platform k fuel [] candidates) =
          some (getRequests read, blocks)) ∧
      Fetched platform k candidates outcome read blocks := by
  obtain ⟨read, later, whole, settled, limit, ends⟩ :=
    @fetchRounds_answered platform outcome k candidates.length [] candidates distinct (Nat.zero_le k) (Nat.le_refl _)
  simp only [List.nil_append] at settled limit ends
  have prefixed : read <+: candidates := ⟨later, whole.symm⟩
  have indices := distinct.sublist (prefixed.sublist.map _)
  have counted := @harvest_count platform outcome read
  refine ⟨read, _, settled, ?_, ?_⟩
  · intro fuel fuelled
    rw [fetchRounds_fuel fuel candidates.length [] candidates fuelled (Nat.le_refl _)]
    exact settled
  · constructor
    case reads => exact prefixed
    case once => exact List.Nodup.of_map _ indices
    case verified =>
      intro entry member
      obtain ⟨row, inside, got⟩ := List.mem_filterMap.mp member
      exact ⟨row, inside, harvest_sound got⟩
    case indices => exact indices.sublist (harvest_indices read)
    case enough =>
      have total : candidates.countP (good platform outcome) =
          read.countP (good platform outcome) + later.countP (good platform outcome) := by
        rw [whole, List.countP_append]
      rcases ends with full | rfl
      · omega
      · rw [List.countP_nil] at total
        omega
    case minimal =>
      intro full
      have split := List.length_eq_countP_add_countP (good platform outcome) (l := read)
      simp only [Bool.not_eq_true, Bool.decide_eq_false] at split
      omega
    case ended =>
      refine ends.imp id ?_
      rintro rfl
      rw [whole, List.append_nil]

end Loop

def smallRow (index : Nat) : Shard × StorageNode :=
  (⟨index, 1, index, .data, 1 + index, smallDigest, 1⟩, healthyNode (1 + index))

def secondDown (row : Shard × StorageNode) : Reply :=
  if row.1.shardIndex = 1 then none else some ⟨200, false, [7]⟩

/-- The second of three nodes is down, and two blocks are wanted. -/
theorem fetchBlocks_reads_around :
    ∃ read blocks,
      answered (replies [smallRow 0, smallRow 1, smallRow 2] secondDown) []
          (fetchBlocks plain [smallRow 0, smallRow 1, smallRow 2] 2) =
        some (getRequests read, blocks) ∧ blocks.length = 2 := by
  obtain ⟨read, blocks, settled, -, fetched⟩ :=
    fetchBlocks_reads plain 2 [smallRow 0, smallRow 1, smallRow 2] secondDown (by decide)
  exact ⟨read, blocks, settled, fetched.enough.trans (by decide)⟩

end SecureFileSystem.Fetching
