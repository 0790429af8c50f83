import SecureFileSystem.Reliable
import SecureFileSystem.Durability

/-!
Repairs that the nodes let through: every row that is to be moved ends up with
a rebuilt object on its target, and the others stay as they are.
-/

namespace SecureFileSystem.Restoration

open Base Database Fleet Session LifeCycle Program Transition RelyGuarantee Progress Erasure Files
  Maintenance Service Interference Stability Conduct Handlers Guarantees Wire Objects Records
  Layering Reading Durability Reliable

def moved (shared : Shared) (old new node : Uuid) : Shared :=
  { shared with db := { shared.db with
    shards := shared.db.shards.map (repointShard old new node) } }

/-- What a repair of a file onto such nodes keeps up, while these rows are still to be moved. -/
structure Frame (platform : Platform) (start : Shared) (fileId : Uuid) (fits : Uuid → Prop)
    (holds : List Uuid → Shared → Prop) : Prop where
  unshaken : ∀ todo, Unshaken platform start (holds todo)
  drawn : ∀ todo shared entry, holds todo shared →
    holds todo { shared with issued := entry :: shared.issued }
  repointed : ∀ todo shared shard new node block, WellFormed shared →
    shard ∈ shared.db.shardsOf fileId → fits node → Stored platform node new block shared →
    platform.sha256Hex block = shard.checksumSha256 → holds (shard.id :: todo) shared →
    holds todo (moved shared shard.id new node)

section Frames
variable {platform : Platform} {start : Shared} {fileId : Uuid} {fits : Uuid → Prop}
  {holds also : List Uuid → Shared → Prop}

theorem frame_and (first : Frame platform start fileId fits holds)
    (second : Frame platform start fileId fits also) :
    Frame platform start fileId fits fun todo shared => holds todo shared ∧ also todo shared where
  unshaken := fun todo => unshaken_and (first.unshaken todo) (second.unshaken todo)
  drawn := fun todo shared entry held =>
    ⟨first.drawn todo shared entry held.1, second.drawn todo shared entry held.2⟩
  repointed := fun todo shared shard new node block wf present fit stored checksum held =>
    ⟨first.repointed todo shared shard new node block wf present fit stored checksum held.1,
      second.repointed todo shared shard new node block wf present fit stored checksum held.2⟩

theorem frame_when (condition : Prop) (frame : Frame platform start fileId fits holds) :
    Frame platform start fileId fits fun todo shared => condition → holds todo shared where
  unshaken := fun todo =>
    ⟨fun before event after serves done calm held so =>
      (frame.unshaken todo).calm before event after serves done calm (held so),
    fun before after db objects issued held so =>
      (frame.unshaken todo).own before after db objects issued (held so)⟩
  drawn := fun todo shared entry held so => frame.drawn todo shared entry (held so)
  repointed := fun todo shared shard new node block wf present fit stored checksum held so =>
    frame.repointed todo shared shard new node block wf present fit stored checksum (held so)

/-- All rows but those still to be moved are intact, on nodes that fit. -/
def Restored (platform : Platform) (fileId : Uuid) (fits : Uuid → Prop) (todo : List Uuid)
    (shared : Shared) : Prop :=
  ∀ row ∈ shared.db.shardsOf fileId,
    row.id ∈ todo ∨ (Intact platform shared row ∧ fits row.nodeId)

theorem restored_frame : Frame platform start fileId fits (Restored platform fileId fits) where
  unshaken := by
    intro todo
    constructor
    · intro before event after serves done calm restored row member
      rw [calm_db calm done] at member
      apply (restored row member).imp_right
      exact fun both => ⟨calm_intact serves calm done (List.mem_filter.mp member).1 both.1, both.2⟩
    · intro before after db objects _ restored row member
      rw [db] at member
      apply (restored row member).imp_right
      rintro ⟨⟨data, held, checksum⟩, fit⟩
      exact ⟨⟨data, objects ▸ held, checksum⟩, fit⟩
  drawn := fun _ _ _ restored => restored
  repointed := by
    intro todo shared shard new node block wf present fit stored checksum restored row member
    rw [shardsOf_repoint rfl] at member
    obtain ⟨source, found, rfl⟩ := List.mem_map.mp member
    unfold repointShard
    by_cases mine : source.id = shard.id
    · have same : source = shard := List.inj_on_of_nodup_map wf.shards_nodup
        (List.mem_filter.mp found).1 (List.mem_filter.mp present).1 mine
      subst same
      rw [if_pos rfl]
      exact Or.inr ⟨⟨block, stored.held, checksum⟩, fit⟩
    · rw [if_neg mine]
      rcases restored source found with listed | whole
      · exact Or.inl ((List.mem_cons.mp listed).resolve_left mine)
      · exact Or.inr whole

end Frames

section Loop
variable {platform : Platform} {start state : Shared} {fileId : Uuid} {fits : Uuid → Prop}
  {holds : List Uuid → Shared → Prop} {post : Tid → Job → Outcome → Shared → Prop}
  {cap budget : Nat}

/-- The rows that the loop has still to come to, and ids for them. -/
structure Due (fileId : Uuid) (budget : Nat) (items : List ((Shard × StorageNode) × Bytes × StorageNode))
    (draws : Nat) (shared : Shared) : Prop where
  present : ∀ item ∈ items, item.1.1 ∈ shared.db.shardsOf fileId
  distinct : (items.map (·.1.1.id)).Nodup
  registered : ∀ item ∈ items, item.2.2.id ∈ shared.db.nodes.map (·.id)
  room : shared.issued.length + draws ≤ budget

theorem due_unshaken (fileId : Uuid) (budget : Nat)
    (items : List ((Shard × StorageNode) × Bytes × StorageNode)) (draws : Nat) :
    Unshaken platform start (Due fileId budget items draws) := by
  constructor
  · intro before event after _ done calm due
    have db := calm_db calm done
    have issued := (environment_undisturbed event done).issued
    exact ⟨db ▸ due.present, due.distinct, db ▸ due.registered, issued ▸ due.room⟩
  · intro before after db _ issued due
    exact ⟨db ▸ due.present, due.distinct, db ▸ due.registered, issued ▸ due.room⟩

theorem known_unshaken (id : Uuid) : Unshaken platform start fun shared => Known shared id := by
  constructor
  · intro before event after _ done _ known
    unfold Known
    rw [(environment_undisturbed event done).issued]
    exact known
  · intro before after _ _ issued known
    unfold Known
    rw [issued]
    exact known

theorem unnamed_unshaken (id : Uuid) :
    Unshaken platform start fun shared => ∀ row ∈ shared.db.shards, row.id ≠ id := by
  constructor
  · intro before event after _ done calm unnamed
    rw [calm_db calm done]
    exact unnamed
  · intro before after db _ _ unnamed
    rw [db]
    exact unnamed

theorem repoint_done {before after : Shared} {old new node : Uuid}
    (done : exec .worker before (.commit [.repoint old new node]) () = some after) :
    after = { moved before old new node with
      log := before.log ++ [(.worker, [.repoint old new node])] } := by
  obtain ⟨db, committed, rfl⟩ := Option.map_eq_some_iff.mp done
  obtain ⟨middle, one, last⟩ := Option.bind_eq_some_iff.mp committed
  cases last
  obtain ⟨-, same⟩ := Option.ite_none_right_eq_some.mp one
  cases same
  rfl

theorem repoint_commits {shared : Shared} {old new node : Uuid} (wf : WellFormed shared)
    (unnamed : ∀ row ∈ shared.db.shards, row.id ≠ new)
    (registered : node ∈ shared.db.nodes.map (·.id)) :
    ∃ db, shared.db.commit [.repoint old new node] = some db := by
  refine ⟨(moved shared old new node).db, ?_⟩
  have distinct : ((shared.db.shards.map (repointShard old new node)).map (·.id)).Nodup := by
    rw [List.map_map]
    apply List.Nodup.map_on ?_ (List.Nodup.of_map _ wf.shards_nodup)
    intro left inLeft right inRight same
    apply List.inj_on_of_nodup_map wf.shards_nodup inLeft inRight
    simp only [Function.comp_apply, repointShard] at same
    split at same
    · rename_i first
      split at same
      · rename_i second
        exact first.trans second.symm
      · exact absurd same.symm (unnamed right inRight)
    · split at same
      · exact absurd same (unnamed left inLeft)
      · exact same
  have hosted : ∀ shard ∈ shared.db.shards.map (repointShard old new node),
      shard.nodeId ∈ shared.db.nodes.map (·.id) := by
    intro shard member
    obtain ⟨source, present, rfl⟩ := List.mem_map.mp member
    unfold repointShard
    split
    · exact registered
    · exact wf.hosted source present
  exact Option.bind_eq_some_iff.mpr ⟨_, if_pos ⟨distinct, hosted⟩, rfl⟩

theorem moved_unnamed {shared : Shared} {old new node : Uuid}
    (unnamed : ∀ row ∈ shared.db.shards, row.id ≠ new) (known : ∃ row ∈ shared.db.shards, row.id = old) :
    ∀ row ∈ (moved shared old new node).db.shards, row.id ≠ old := by
  intro row member
  obtain ⟨source, present, rfl⟩ := List.mem_map.mp member
  unfold repointShard
  split
  · obtain ⟨owner, inside, rfl⟩ := known
    exact (unnamed owner inside).symm
  · rename_i other
    exact other

theorem moved_due {shared : Shared} {item : (Shard × StorageNode) × Bytes × StorageNode}
    {rest : List ((Shard × StorageNode) × Bytes × StorageNode)} {new node : Uuid} {draws : Nat}
    (due : Due fileId budget (item :: rest) draws shared) :
    Due fileId budget rest draws (moved shared item.1.1.id new node) := by
  have apart := due.distinct
  rw [List.map_cons, List.nodup_cons] at apart
  refine ⟨fun other member => ?_, apart.2, ?_, due.room⟩
  · rw [shardsOf_repoint rfl]
    refine List.mem_map.mpr ⟨other.1.1, due.present other (List.mem_cons_of_mem _ member), ?_⟩
    apply if_neg
    intro clash
    exact apart.1 (clash ▸ List.mem_map_of_mem member)
  · exact fun other member => due.registered other (List.mem_cons_of_mem _ member)

/-- The loop moves every row it is given. -/
theorem repairShards_sure (frame : Frame platform start fileId fits holds) (enough : budget ≤ cap)
    (items : List ((Shard × StorageNode) × Bytes × StorageNode))
    (rebuilt : ∀ item ∈ items, platform.sha256Hex item.2.1 = item.1.1.checksumSha256 ∧
      item.2.1 ≠ [] ∧ fits item.2.2.id)
    (due : Due fileId budget items items.length state)
    (begins : holds (items.map (·.1.1.id)) state) :
    Works platform start cap post (fun count later => count = items.length ∧ holds [] later ∧
      later.issued.length ≤ budget) (repairShards platform items) state := by
  induction items generalizing state with
  | nil =>
      have stable := unshaken_and (frame.unshaken []) (@due_unshaken platform start fileId
        budget [] 0)
      apply sure_ret (unshaken_stable stable) ⟨begins, due⟩
      rintro later - ⟨held, due⟩
      exact ⟨rfl, held, due.room⟩
  | cons item rest ih =>
      obtain ⟨⟨shard, oldNode⟩, block, target⟩ := item
      obtain ⟨checksum, nonempty, fit⟩ := rebuilt _ List.mem_cons_self
      have others := fun item member => rebuilt item (List.mem_cons_of_mem _ member)
      unfold repairShards
      rw [if_neg (not_not_intro checksum)]
      have ready : ∀ draws, Unshaken platform start fun shared =>
          Due fileId budget (((shard, oldNode), block, target) :: rest) draws shared ∧
            holds (shard.id :: rest.map (·.1.1.id)) shared :=
        fun draws => unshaken_and (due_unshaken fileId budget _ draws) (frame.unshaken _)
      apply works_uuid4 (ready (rest.length + 1)) ⟨due, begins⟩
      · intro shared held
        have room := held.1.room
        omega
      intro before newId after wf _ held vacant same
      subst same
      obtain ⟨due, held⟩ := held
      have drawn : Due fileId budget (((shard, oldNode), block, target) :: rest) rest.length
          { before with issued := (.worker, newId) :: before.issued } := by
        refine ⟨due.present, due.distinct, due.registered, ?_⟩
        have room := due.room
        rw [List.length_cons]
        omega
      -- the rebuilt object
      have putting := unshaken_and (known_unshaken newId) (ready rest.length)
      apply works_put putting ⟨List.mem_cons_self, drawn, frame.drawn _ _ _ held⟩
        (fun shared held => held.1) nonempty vacant
      intro reply later success held stored
      rw [if_pos success]
      -- the row
      have stable : Stable ((reliable platform start).contract post) .worker fun shared =>
          (Known shared newId ∧ Due fileId budget (((shard, oldNode), block, target) :: rest)
            rest.length shared ∧ holds (shard.id :: rest.map (·.1.1.id)) shared) ∧
          Stored platform target.id newId block shared := by
        apply layer_stable
        · rintro first last - serves - ⟨-, event, done, calm⟩ ⟨held, stored⟩
          exact ⟨putting.calm first event last serves done calm held, calm_stored calm done stored⟩
        · exact fun other _ _ different _ _ _ move => absurd move.1 different
      apply layer_sure stable ⟨held, stored⟩
      · rintro shared wf - ⟨held, stored⟩
        exact repoint_commits wf stored.rows (held.2.1.registered _ List.mem_cons_self)
      rintro committing _ repointed wf serves ⟨⟨known, due, held⟩, stored⟩ done life -
      have serving := repoint_serves life done stored.spared serves
      obtain rfl := repoint_done done
      refine ⟨⟨rfl, serving⟩, ?_⟩
      have present := due.present _ List.mem_cons_self
      have stands := (List.mem_filter.mp present).1
      have next := frame.repointed (rest.map (·.1.1.id)) committing shard newId target.id block wf
        present fit stored checksum held
      -- the old object
      have deleting := unshaken_and (known_unshaken shard.id) <|
        unshaken_and (unnamed_unshaken shard.id) <|
          unshaken_and (due_unshaken fileId budget rest rest.length) (frame.unshaken (rest.map (·.1.1.id)))
      have logged := deleting.own (moved committing shard.id newId target.id)
        { moved committing shard.id newId target.id with
          log := committing.log ++ [(.worker, [.repoint shard.id newId target.id])] } rfl rfl rfl
        ⟨wf.used_issued _ (wf.shards_used shard stands),
          moved_unnamed stored.rows ⟨shard, stands, rfl⟩, moved_due due, next⟩
      change Works platform start cap post _ ((gather [(oldNode.id, .delete shard.id)]).bind fun _ =>
        (repairShards platform rest).bind fun repaired => .ret (repaired + 1)) _
      apply @works_gather _ _ _ _ _ _ _ _ _ _ (fun _ _ => True) deleting logged
      · intro one member
        rw [List.mem_singleton.mp member]
        exact ⟨shard.id, rfl⟩
      · intro shared held one member id named
        rw [List.mem_singleton.mp member] at named
        cases named
        exact held.1
      · intro shared held one member id named
        rw [List.mem_singleton.mp member] at named
        cases named
        exact held.2.1
      · exact fun _ _ _ _ _ _ => trivial
      · intro replies last held _ _
        apply sure_map
        apply sure_mono (ih others held.2.2.1 held.2.2.2)
        rintro count final - ⟨same, rest⟩
        exact ⟨congrArg (· + 1) same, rest⟩

end Loop

section Fetch
variable {platform : Platform} {start state : Shared} {post : Tid → Job → Outcome → Shared → Prop}
  {cap k m : Nat} {data : Bytes} {holds : Shared → Prop}

def Holds (platform : Platform) (data : Bytes) (k m : Nat) (shared : Shared)
    (row : Shard × StorageNode) : Prop :=
  shared.objects row.2.id row.1.id =
    some ⟨platform.sha256Hex (codeBlock platform.zfec data k m row.1.shardIndex),
      codeBlock platform.zfec data k m row.1.shardIndex⟩

theorem batch_grows (distinct : Function.Injective platform.sha256Hex)
    (good : Shard × StorageNode → Bool) {collected : Blocks} {batch : List (Shard × StorageNode)}
    {replies : List Reply} (length : replies.length = batch.length)
    (ids : (batch.map (·.1.id)).Nodup) (encodes : Encodes platform data k m batch)
    (genuine : Genuine platform.zfec data k m collected)
    (fresh : ∀ row ∈ batch, row.1.shardIndex ∉ collected.map (·.1))
    (told : ∀ (index : Nat) row reply, batch[index]? = some row → replies[index]? = some reply →
      good row = true →
        getShard reply = .ok (codeBlock platform.zfec data k m row.1.shardIndex)) :
    ∃ world, Grows platform world data k m collected batch
        (collect platform collected (batch.zip replies)) ∧
      batch.countP good ≤ batch.countP (intact platform world data k m) := by
  obtain ⟨world, same⟩ := replies_world batch replies length ids
  refine ⟨world, ?_, ?_⟩
  · rw [same]
    exact collect_grows distinct collected batch encodes genuine fresh
  · apply List.countP_mono_left
    intro row member isGood
    obtain ⟨index, inside, here⟩ := List.mem_iff_getElem.mp member
    have at_row : batch[index]? = some row := List.getElem?_eq_some_iff.mpr ⟨inside, here⟩
    have reply : replies[index]? = some (world.reply row.2.id (.get row.1.id)) := by
      have pair : (batch.zip replies)[index]? =
          some (row, world.reply row.2.id (.get row.1.id)) := by
        rw [same, List.getElem?_map, at_row]
        rfl
      exact (List.getElem?_zip_eq_some.mp pair).2
    have answered := told index row _ at_row reply isGood
    simp [intact, answered]

/-- The loop of the repair collects genuine blocks, and enough of them when enough rows are good. -/
theorem fetchRounds_sure (unshaken : Unshaken platform start holds)
    (distinct : Function.Injective platform.sha256Hex) (good : Shard × StorageNode → Bool)
    (fuel : Nat) (collected : Blocks) (remaining : List (Shard × StorageNode))
    (begins : holds state)
    (known : ∀ shared, holds shared → ∀ row ∈ remaining, Known shared row.1.id)
    (held : ∀ shared, holds shared → ∀ row ∈ remaining, good row = true →
      Holds platform data k m shared row)
    (encodes : Encodes platform data k m remaining) (ids : (remaining.map (·.1.id)).Nodup)
    (genuine : Genuine platform.zfec data k m collected)
    (fresh : ∀ row ∈ remaining, row.1.shardIndex ∉ collected.map (·.1))
    (fuelled : remaining.length ≤ fuel) :
    Works platform start cap post (fun blocks later => holds later ∧
        Genuine platform.zfec data k m blocks ∧
        (k ≤ collected.length + remaining.countP good → k ≤ blocks.length))
      (fetchRounds platform k fuel collected remaining) state := by
  induction fuel generalizing collected remaining state with
  | zero =>
      have empty : remaining = [] := List.length_eq_zero_iff.mp (Nat.le_zero.mp fuelled)
      subst empty
      apply sure_ret (unshaken_stable unshaken) begins
      exact fun later _ held => ⟨held, genuine, id⟩
  | succ fuel ih =>
      unfold fetchRounds
      split
      · rename_i going
        obtain ⟨short, more⟩ := going
        have whole := List.take_append_drop (k - collected.length) remaining
        have shorter : (remaining.drop (k - collected.length)).length ≤ fuel := by
          have some := List.length_pos_iff.mpr more
          rw [List.length_drop]
          omega
        generalize remaining.take (k - collected.length) = batch at whole ⊢
        generalize remaining.drop (k - collected.length) = later at whole shorter ⊢
        subst whole
        rw [List.map_append, List.nodup_append] at ids
        -- Every good row of the batch is answered with its block.
        apply @works_gather _ _ _ _ _ _ _ _ _ _ (fun one response => ∀ row ∈ batch,
          good row = true → one = (row.2.id, .get row.1.id) →
            response = ⟨200, false, codeBlock platform.zfec data k m row.1.shardIndex⟩)
          unshaken begins
        · intro one member
          obtain ⟨row, -, rfl⟩ := List.mem_map.mp member
          exact ⟨row.1.id, rfl⟩
        · intro shared holding one member id named
          obtain ⟨row, inside, rfl⟩ := List.mem_map.mp member
          cases named
          exact known shared holding row (List.mem_append_left _ inside)
        · intro shared _ one member id delete
          obtain ⟨row, -, rfl⟩ := List.mem_map.mp member
          cases delete
        · intro shared holding one member id named row inside isGood same
          subst same
          cases named
          have there := held shared holding row (List.mem_append_left _ inside) isGood
          rw [there]
          simp [serve]
        · intro replies last holding length heard
          have count : replies.length = batch.length := by
            rw [length]
            exact List.length_map _
          have told : ∀ (index : Nat) row reply, batch[index]? = some row →
              replies[index]? = some reply → good row = true →
                getShard reply = .ok (codeBlock platform.zfec data k m row.1.shardIndex) := by
            intro index row reply at_row got isGood
            obtain ⟨response, rfl, right⟩ := heard index (row.2.id, .get row.1.id) reply
              (by rw [getRequests, List.getElem?_map, at_row]; rfl) got
            rw [right row (List.mem_of_getElem? at_row) isGood rfl]
            rfl
          obtain ⟨world, grows, counted⟩ := batch_grows distinct good count ids.1
            (encodes_sublist encodes (List.sublist_append_left _ _)) genuine
            (fun row member => fresh row (List.mem_append_left _ member)) told
          apply sure_mono (ih _ later holding
            (fun shared held row member => known shared held row (List.mem_append_right _ member))
            (fun shared holding row member => held shared holding row (List.mem_append_right _ member))
            (encodes_sublist encodes (List.sublist_append_right _ _)) ids.2.1 grows.genuine
            (grows_further encodes grows fresh) shorter)
          -- What this batch has brought, the later rounds need not bring.
          rintro blocks final - ⟨holding, real, enough⟩
          refine ⟨holding, real, fun sum => enough ?_⟩
          have gained := grows.counted
          rw [List.countP_append] at sum
          omega
      · rename_i stop
        apply sure_ret (unshaken_stable unshaken) begins
        intro later _ held
        refine ⟨held, genuine, fun sum => ?_⟩
        rw [not_and_or, Nat.not_lt, Decidable.not_not] at stop
        rcases stop with full | empty
        · exact full
        · rw [empty, List.countP_nil] at sum
          exact sum

end Fetch

def marked (db : Db) (fileId : Uuid) (bad : List Uuid) : List Shard :=
  (db.shardsOf fileId).filter (·.id ∈ bad)

def sources (db : Db) (fileId : Uuid) (bad : List Uuid) : List (Shard × StorageNode) :=
  db.placed.filter fun row =>
    row.1.fileId = fileId && row.2.status ≠ .decommissioned && row.1.id ∉ bad

/-- The healthy nodes without a row of the file. -/
def spares (db : Db) (fileId : Uuid) : List StorageNode :=
  db.nodes.filter fun node =>
    node.status = .healthy && node.id ∉ (db.shardsOf fileId).map (·.nodeId)

section Candidates
variable {db : Db} {file : File} {bad : List Uuid} {loaded : List StorageNode}
  {rows : List (Shard × StorageNode)}

def candidates (bad : List Uuid) (loaded : List StorageNode) (rows : List (Shard × StorageNode)) :
    List (Shard × StorageNode) :=
  ((rows.map fun row => (row.1, identityMap loaded row.2)).filter
    fun candidate => candidate.1.id ∉ bad).insertionSort fun left right => candidateBefore left right

theorem identityMap_id (loaded : List StorageNode) (node : StorageNode) :
    (identityMap loaded node).id = node.id := by
  unfold identityMap
  cases found : loaded.find? (·.id = node.id) with
  | none => rfl
  | some other => simpa using List.find?_some found

theorem candidates_perm : ((candidates bad loaded rows).map Prod.fst).Perm
    ((rows.map Prod.fst).filter (·.id ∉ bad)) := by
  unfold candidates
  apply ((List.perm_insertionSort _ _).map Prod.fst).trans
  rw [List.filter_map, List.filter_map, List.map_map, Function.comp_def, Function.comp_def]
  exact List.Perm.refl _

theorem candidates_subperm (distinct : (db.nodes.map (·.id)).Nodup)
    (selected : rows.Perm (db.placed.filter fun row => readable file db row.1 row.2)) :
    ((candidates bad loaded rows).map Prod.fst).Subperm (db.shardsOf file.id) := by
  apply candidates_perm.subperm.trans
  apply List.filter_sublist.subperm.trans
  exact (selected.map Prod.fst).subperm.trans (readable_sublist distinct file).subperm

theorem candidates_member (selected : rows.Perm
      (db.placed.filter fun row => readable file db row.1 row.2))
    {row : Shard × StorageNode} (member : row ∈ candidates bad loaded rows) :
    row.1 ∈ db.shardsOf file.id ∧ row.1.id ∉ bad ∧ row.2.id = row.1.nodeId := by
  have kept := (List.mem_filter.mp ((List.perm_insertionSort _ _).mem_iff.mp member))
  obtain ⟨source, inside, rfl⟩ := List.mem_map.mp kept.1
  obtain ⟨joined, reads⟩ := List.mem_filter.mp (selected.mem_iff.mp inside)
  obtain ⟨stands, -, node⟩ := placed_shard joined
  simp only [readable, Bool.and_eq_true] at reads
  refine ⟨List.mem_filter.mpr ⟨stands, reads.1⟩, by simpa using kept.2, ?_⟩
  exact (identityMap_id loaded source.2).trans node

theorem candidates_length (selected : rows.Perm
      (db.placed.filter fun row => readable file db row.1 row.2)) :
    (candidates bad loaded rows).length = (sources db file.id bad).length := by
  have count := (@candidates_perm bad loaded rows).length_eq
  rw [List.length_map, List.filter_map, List.length_map] at count
  rw [count, (selected.filter _).length_eq, List.filter_filter]
  unfold sources
  congr 1
  apply List.filter_congr
  intro row _
  simp only [Function.comp_apply, readable]
  exact Bool.and_comm _ _

end Candidates

section Repair
variable {platform : Platform} {start state : Shared} {fileId : Uuid} {fits : Uuid → Prop}
  {also : Shared → Prop} {post : Tid → Job → Outcome → Shared → Prop} {cap budget : Nat} {db : Db}
  {file : File} {data : Bytes} {bad : List Uuid}

structure Repairable (platform : Platform) (db : Db) (file : File) (data : Bytes) : Prop where
  present : file ∈ db.files
  available : file.status = .available
  positive : 1 ≤ file.dataShards
  nonempty : data ≠ []
  mds : Mds platform.zfec file.dataShards (file.dataShards + file.parityShards)
  encodes : ∀ rows : List (Shard × StorageNode),
    (rows.map Prod.fst).Subperm (db.shardsOf file.id) →
      Encodes platform data file.dataShards file.parityShards rows

def Still (platform : Platform) (db : Db) (fileId : Uuid) (bad : List Uuid) (fits : Uuid → Prop)
    (whole : Bool) (also : Shared → Prop) (budget : Nat) (shared : Shared) : Prop :=
  shared.db = db ∧ (whole = true → Restored platform fileId fits bad shared) ∧ also shared ∧
    shared.issued.length + (marked db fileId bad).length ≤ budget

theorem still_unshaken (whole : Bool) (frame : Frame platform start fileId fits fun _ => also) :
    Unshaken platform start (Still platform db fileId bad fits whole also budget) := by
  constructor
  · intro before event after serves done calm still
    refine ⟨(calm_db calm done).trans still.1, fun enough => ?_, ?_, ?_⟩
    · exact (restored_frame.unshaken bad).calm before event after serves done calm
        (still.2.1 enough)
    · exact (frame.unshaken []).calm before event after serves done calm still.2.2.1
    · rw [(environment_undisturbed event done).issued]
      exact still.2.2.2
  · intro before after same objects issued still
    refine ⟨same.trans still.1, fun enough => ?_, ?_, ?_⟩
    · exact ((@restored_frame platform start fileId fits).unshaken bad).own before after same
        objects issued (still.2.1 enough)
    · exact (frame.unshaken []).own before after same objects issued still.2.2.1
    · rw [issued]
      exact still.2.2.2

theorem found_head (wf : (db.files.map (·.id)).Nodup) (present : file ∈ db.files)
    {found : List File} (order : found.Perm (db.files.filter fun row => row.id = file.id)) :
    found.head? = some file := by
  have member : file ∈ found :=
    order.mem_iff.mpr (List.mem_filter.mpr ⟨present, by simp⟩)
  cases found with
  | nil => cases member
  | cons first rest =>
      obtain ⟨inside, named⟩ := List.mem_filter.mp (order.mem_iff.mp List.mem_cons_self)
      rw [List.head?_cons, List.inj_on_of_nodup_map wf inside present (by simpa using named)]

/-- The items of the loop: each row with its block, and a target. -/
theorem mem_items {Row Block Target : Type} {block : Row → Block} {rows : List Row}
    {targets : List Target} {item : Row × Block × Target}
    (member : item ∈ rows.zip ((rows.map block).zip targets)) :
    item.1 ∈ rows ∧ item.2.1 = block item.1 ∧ item.2.2 ∈ targets := by
  induction rows generalizing targets with
  | nil => cases member
  | cons row rest ih =>
      cases targets with
      | nil => cases member
      | cons target others =>
          rcases List.mem_cons.mp member with rfl | later
          · exact ⟨List.mem_cons_self, rfl, List.mem_cons_self⟩
          · obtain ⟨inside, same, target⟩ := ih later
            exact ⟨List.mem_cons_of_mem _ inside, same, List.mem_cons_of_mem _ target⟩

theorem spare_healthy {target : StorageNode} (member : target ∈ spares db fileId) :
    target ∈ db.nodes ∧ target.status = .healthy := by
  obtain ⟨registered, selected⟩ := List.mem_filter.mp member
  simp only [Bool.and_eq_true] at selected
  exact ⟨registered, of_decide_eq_true selected.1⟩

theorem targets_perm {placed : List (Shard × StorageNode)}
    (rows : (placed.map Prod.fst).Perm (db.shardsOf file.id))
    (joined : ∀ row ∈ placed, row.2.id = row.1.nodeId) {nodes targets : List StorageNode}
    (up : nodes.Perm (db.nodes.filter fun node => node.status = .healthy))
    (order : targets.Perm (nodes.filter fun node => node.id ∉ placed.map fun row => row.2.id)) :
    targets.Perm (spares db file.id) := by
  have hosts : ∀ id, id ∈ placed.map (fun row => row.2.id) ↔
      id ∈ (db.shardsOf file.id).map (·.nodeId) := by
    intro id
    have nodes : placed.map (fun row => row.2.id) = (placed.map Prod.fst).map (·.nodeId) := by
      rw [List.map_map]
      exact List.map_congr_left joined
    rw [nodes]
    exact (rows.map (·.nodeId)).mem_iff
  have free := up.filter fun node => node.id ∉ placed.map fun row => row.2.id
  rw [List.filter_filter] at free
  apply order.trans
  apply free.trans
  unfold spares
  rw [List.filter_congr]
  intro node _
  simp only [hosts, Bool.and_comm]

/-- The rows due, each with its block and a target. -/
structure Batch (platform : Platform) (db : Db) (file : File) (bad : List Uuid) (whole : Bool)
    (items : List ((Shard × StorageNode) × Bytes × StorageNode)) : Prop where
  rows : ∀ item ∈ items, item.1.1 ∈ db.shardsOf file.id
  rebuilt : ∀ item ∈ items,
    platform.sha256Hex item.2.1 = item.1.1.checksumSha256 ∧ item.2.1 ≠ []
  targets : ∀ item ∈ items, item.2.2 ∈ spares db file.id
  distinct : (items.map (·.1.1.id)).Nodup
  few : items.length ≤ (marked db file.id bad).length
  covers : whole = true → (items.map (·.1.1)).Perm (marked db file.id bad)

theorem batch_due (repairable : Repairable platform db file data)
    (ids : (db.shards.map (·.id)).Nodup) (whole : Bool)
    (spared : whole = true → (marked db file.id bad).length ≤ (spares db file.id).length)
    {due : List (Shard × StorageNode)} {targets : List StorageNode}
    (chosen : (due.map Prod.fst).Perm (marked db file.id bad))
    (all : targets.Perm (spares db file.id)) :
    Batch platform db file bad whole (due.zip ((due.map fun row => codeBlock platform.zfec data
      file.dataShards file.parityShards row.1.shardIndex).zip targets)) := by
  have encodes := repairable.encodes due <|
    chosen.subperm.trans (List.filter_sublist (l := db.shardsOf file.id)).subperm
  have count : due.length = (marked db file.id bad).length := by
    rw [← chosen.length_eq, List.length_map]
  have inside : ∀ item ∈ due.zip ((due.map fun row =>
      codeBlock platform.zfec data file.dataShards file.parityShards row.1.shardIndex).zip targets),
      item.1 ∈ due ∧ item.2.1 = codeBlock platform.zfec data file.dataShards file.parityShards
        item.1.1.shardIndex ∧ item.2.2 ∈ targets := fun item => mem_items
  -- There may be fewer hosts than shards: then the last ones wait for another pass.
  have fewer := Upkeep.zip_fst_sublist due ((due.map fun row =>
    codeBlock platform.zfec data file.dataShards file.parityShards row.1.shardIndex).zip targets)
  constructor
  case rows =>
    intro item member
    have mark := chosen.mem_iff.mp (List.mem_map_of_mem (inside item member).1)
    exact (List.mem_filter.mp mark).1
  case rebuilt =>
    intro item member
    obtain ⟨row, same, -⟩ := inside item member
    rw [same]
    refine ⟨(encodes.checksum item.1 row).symm, ?_⟩
    apply List.ne_nil_of_length_pos
    rw [codeBlock_length repairable.mds repairable.positive (encodes.bound item.1 row)]
    exact blockSize_positive _ _ repairable.positive (List.length_pos_iff.mpr repairable.nonempty)
  case targets =>
    exact fun item member => all.mem_iff.mp (inside item member).2.2
  case distinct =>
    have marks : ((marked db file.id bad).map (·.id)).Nodup :=
      ids.sublist ((List.filter_sublist.trans List.filter_sublist).map _)
    have dues := (chosen.map (·.id)).nodup_iff.mpr marks
    rw [List.map_map] at dues
    have some := dues.sublist (fewer.map _)
    rw [List.map_map] at some
    exact some
  case few =>
    have less := fewer.length_le
    rw [List.length_map, count] at less
    exact less
  case covers =>
    intro so
    have every : (due.zip ((due.map fun row => codeBlock platform.zfec data file.dataShards
        file.parityShards row.1.shardIndex).zip targets)).map Prod.fst = due := by
      apply List.map_fst_zip
      rw [List.length_zip, List.length_map, all.length_eq, count]
      exact Nat.le_min.mpr ⟨Nat.le_refl _, spared so⟩
    rw [← every, List.map_map] at chosen
    exact chosen

def rebuilding (platform : Platform) (file : File) (badShardIds : List Uuid)
    (placed : List (Shard × StorageNode)) (blocks : Blocks) : Async (Except ErasureError Nat) := do
  let occupied := placed.map fun (_, node) => node.id
  let bad := placed.filter fun (shard, _) => shard.id ∈ badShardIds
  let healthy ← healthyNodes
  let targets ← shuffle (healthy.filter fun node => node.id ∉ occupied)
  match regenerate platform.zfec blocks file.dataShards file.parityShards
      (bad.map fun (shard, _) => shard.shardIndex) with
  | .error error => return .error error
  | .ok rebuilt =>
      let repaired ← repairShards platform (bad.zip (rebuilt.zip targets))
      return .ok repaired

theorem rebuilding_sure (enough : budget ≤ cap) (repairable : Repairable platform db file data)
    (frame : Frame platform start file.id fits fun _ => also)
    (healthy : ∀ node ∈ db.nodes, node.status = .healthy → fits node.id) (whole : Bool)
    (spared : whole = true → (marked db file.id bad).length ≤ (spares db file.id).length)
    {placed : List (Shard × StorageNode)} (rows : (placed.map Prod.fst).Perm (db.shardsOf file.id))
    (joined : ∀ row ∈ placed, row.2.id = row.1.nodeId) {blocks : Blocks}
    (genuine : Genuine platform.zfec data file.dataShards file.parityShards blocks)
    (count : file.dataShards ≤ blocks.length)
    (begins : Still platform db file.id bad fits whole also budget state) :
    Works platform start cap post (fun out later => ∃ count, out = .ok count ∧
        (whole = true → count = (marked db file.id bad).length ∧
          Restored platform file.id fits [] later) ∧
        also later ∧ later.issued.length ≤ budget)
      (rebuilding platform file bad placed blocks) state := by
  have unshaken : Unshaken platform start (Still platform db file.id bad fits whole also budget) :=
    still_unshaken whole frame
  apply works_reads (.selectNodes _) trivial unshaken begins
  intro before nodes _ _ still done
  obtain ⟨up, -⟩ := Option.ite_none_right_eq_some.mp done
  rw [still.1] at up
  apply works_reads (.shuffle _) trivial unshaken still
  intro before targets wf _ still done
  obtain ⟨order, -⟩ := Option.ite_none_right_eq_some.mp done
  have all := targets_perm rows joined up order
  rw [regenerate_genuine repairable.mds repairable.positive genuine count, List.map_map]
  change Works platform start cap post _ ((repairShards platform
    ((placed.filter fun row => row.1.id ∈ bad).zip (((placed.filter fun row => row.1.id ∈ bad).map
      fun row => codeBlock platform.zfec data file.dataShards file.parityShards
        row.1.shardIndex).zip targets))).bind fun repaired => .ret (Except.ok repaired)) _
  have chosen : ((placed.filter fun row => row.1.id ∈ bad).map Prod.fst).Perm
      (marked db file.id bad) := by
    have same := rows.filter fun row => row.id ∈ bad
    rw [List.filter_map] at same
    exact same
  generalize (placed.filter fun row => row.1.id ∈ bad) = due at chosen ⊢
  -- What is due, with its blocks and hosts, in the terms of the repair loop.
  have batch := batch_due repairable (still.1 ▸ wf.shards_nodup) whole spared chosen all
  generalize due.zip _ = items at batch ⊢
  have both := frame_and (frame_when (whole = true)
    (@restored_frame platform start file.id fits)) frame
  apply sure_map
  apply sure_mono (repairShards_sure both enough items ?_ ⟨?_, batch.distinct, ?_, ?_⟩
    ⟨?_, still.2.2.1⟩)
  · rintro moved later - ⟨same, ⟨restored, also⟩, room⟩
    refine ⟨moved, rfl, fun so => ⟨?_, restored so⟩, also, room⟩
    rw [same, ← (batch.covers so).length_eq, List.length_map]
  · intro item member
    obtain ⟨registered, up⟩ := spare_healthy (batch.targets item member)
    obtain ⟨checksum, nonempty⟩ := batch.rebuilt item member
    exact ⟨checksum, nonempty, healthy _ registered up⟩
  · intro item member
    rw [still.1]
    exact batch.rows item member
  · intro item member
    rw [still.1]
    exact List.mem_map_of_mem (spare_healthy (batch.targets item member)).1
  · exact (Nat.add_le_add_left batch.few _).trans still.2.2.2
  -- A row either is marked and gets its turn, or is intact already.
  · intro so row member
    rcases still.2.1 so row member with bad | restored
    · left
      rw [still.1] at member
      have mark : row ∈ marked db file.id _ :=
        List.mem_filter.mpr ⟨member, decide_eq_true bad⟩
      obtain ⟨item, there, rfl⟩ := List.mem_map.mp ((batch.covers so).mem_iff.mpr mark)
      exact List.mem_map_of_mem there
    · exact Or.inr restored

theorem unshaken_all {Index : Type} (wanted : Index → Prop) {holds : Index → Shared → Prop}
    (each : ∀ index, Unshaken platform start (holds index)) :
    Unshaken platform start fun shared => ∀ index, wanted index → holds index shared :=
  ⟨fun before event after serves done calm held index want =>
    (each index).calm before event after serves done calm (held index want),
  fun before after db objects issued held index want =>
    (each index).own before after db objects issued (held index want)⟩

/-- A repair of an available file: it returns, it keeps `also`, and where there are
enough sources and spares it moves every marked row. -/
theorem repairFile_sure (distinct : Function.Injective platform.sha256Hex) (enough : budget ≤ cap)
    (repairable : Repairable platform db file data)
    (frame : Frame platform start file.id fits fun _ => also)
    (healthy : ∀ node ∈ db.nodes, node.status = .healthy → fits node.id) (whole : Bool)
    (sourced : whole = true → file.dataShards ≤ (sources db file.id bad).length)
    (spared : whole = true → (marked db file.id bad).length ≤ (spares db file.id).length)
    (begins : Still platform db file.id bad fits whole also budget state) :
    Works platform start cap post (fun out later => ∃ count, out = .ok count ∧
        (whole = true → count = (marked db file.id bad).length ∧
          Restored platform file.id fits [] later) ∧
        also later ∧ later.issued.length ≤ budget)
      (repairFile platform file.id bad) state := by
  have unshaken : Unshaken platform start (Still platform db file.id bad fits whole also budget) :=
    still_unshaken whole frame
  apply works_reads (.selectFiles _) trivial unshaken begins
  intro before found wf _ still done
  obtain ⟨order, -⟩ := Option.ite_none_right_eq_some.mp done
  have files := wf.files_nodup
  rw [still.1] at order files
  have head := found_head files repairable.present order
  dsimp only [Prog.bind]
  rw [head]
  dsimp only
  rw [if_neg (not_not_intro repairable.available)]
  apply works_reads (.selectPlaced _) trivial unshaken still
  intro before placed wf _ still done
  obtain ⟨joins, -⟩ := Option.ite_none_right_eq_some.mp done
  have perm := placed_perm wf joins
  rw [still.1] at perm joins
  apply works_reads (.selectPlaced _) trivial unshaken still
  intro before rows wf _ still done
  obtain ⟨selected, -⟩ := Option.ite_none_right_eq_some.mp done
  have nodes := wf.nodes_nodup
  have shards := wf.shards_nodup
  rw [still.1] at selected nodes shards
  change Works platform start cap post _ ((fetchRounds platform file.dataShards
    (candidates bad (placed.map (·.2)) rows).length [] (candidates bad (placed.map (·.2)) rows)).bind
      fun blocks => if blocks.length < file.dataShards then .ret (.ok 0)
        else rebuilding platform file bad placed blocks) _
  have some : ((candidates bad (placed.map (·.2)) rows).map Prod.fst).Subperm
      (db.shardsOf file.id) := candidates_subperm nodes selected
  have member : ∀ row ∈ candidates bad (placed.map (·.2)) rows, row.1 ∈ db.shardsOf file.id ∧
      row.1.id ∉ bad ∧ row.2.id = row.1.nodeId := fun row => candidates_member selected
  have length : (candidates bad (placed.map (·.2)) rows).length = (sources db file.id bad).length :=
    candidates_length selected
  generalize candidates bad (placed.map (·.2)) rows = remaining at some member length ⊢
  have encodes := repairable.encodes _ some
  -- The candidates are rows of the table, hence distinct.
  have ids : (remaining.map (·.1.id)).Nodup := by
    obtain ⟨order, same, part⟩ := some
    have distinct := shards.sublist ((part.trans List.filter_sublist).map (·.id))
    have rows := (same.map (·.id)).nodup_iff.mp distinct
    rw [List.map_map] at rows
    exact rows
  have known : ∀ row : Shard × StorageNode, row ∈ remaining → Known before row.1.id := by
    intro row inside
    have stands := (List.mem_filter.mp (member row inside).1).1
    rw [← still.1] at stands
    exact wf.used_issued _ (wf.shards_used row.1 stands)
  have reading := unshaken_and unshaken (unshaken_all (· ∈ remaining)
    fun row : Shard × StorageNode => known_unshaken row.1.id)
  apply sure_bind (fetchRounds_sure reading distinct (fun _ => whole) _ [] _ ⟨still, known⟩
    (fun shared held => held.2) ?_ encodes ids ⟨List.nodup_nil, by simp⟩ (by simp) (Nat.le_refl _))
  · rintro blocks later - ⟨⟨still, -⟩, genuine, count⟩
    split
    -- With enough sources the rounds cannot have come up short.
    · rename_i short
      apply sure_ret (unshaken_stable unshaken) still
      rintro last - ⟨same, -, also, room⟩
      refine ⟨0, rfl, fun enough => ?_, also, (Nat.le_add_right _ _).trans room⟩
      subst enough
      rw [List.countP_true, List.length_nil, Nat.zero_add, length] at count
      exact absurd (count (sourced rfl)) (Nat.not_le.mpr short)
    · rename_i filled
      exact rebuilding_sure enough repairable frame healthy whole spared perm
        (fun row inside => (placed_shard (List.mem_filter.mp (joins.mem_iff.mp inside)).1).2.2)
        genuine (Nat.not_lt.mp filled) still
  · intro shared held row inside isGood
    obtain ⟨stands, unmarked, node⟩ := member row inside
    have restored := held.1.2.1 isGood
    have there := held.1.1 ▸ stands
    obtain ⟨bytes, stored, checksum⟩ := ((restored row.1 there).resolve_left unmarked).1
    have same := distinct (checksum.trans (encodes.checksum row inside))
    unfold Holds
    rw [node, stored, same]

end Repair

end SecureFileSystem.Restoration
