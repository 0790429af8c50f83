import SecureFileSystem.Stability

/-!
One rule for each kind of request under the service's contract, and the parts
that several handlers share.
-/

namespace SecureFileSystem.Conduct

open Base Database Fleet Session LifeCycle Program RelyGuarantee Files Service Interference
  Stability

variable {platform : Platform} {post : Tid → Job → Outcome → Shared → Prop} {thread : Tid}
  {Mid Out : Type} {result : Out → Shared → Prop} {holds : Shared → Prop} {state : Shared}

abbrev Keeps (platform : Platform) (post : Tid → Job → Outcome → Shared → Prop) (thread : Tid)
    (result : Out → Shared → Prop) (prog : Async Out) (state : Shared) : Prop :=
  Safe (service platform) (contract post) thread result prog state

theorem undisturbed_holds (stable : Stable (contract post) thread holds) {before after : Shared}
    (undisturbed : Undisturbed before after) (wf : WellFormed before) (start : holds before) :
    holds after :=
  stable before after wf (undisturbed_wellFormed undisturbed wf) (Or.inl undisturbed) start

theorem keeps_quiet (request : Op) {next : Res request → Async Out}
    (stable : Stable (contract post) thread holds) (calm : quiet request) (start : holds state)
    (rest : ∀ before answer after, WellFormed before → WellFormed after →
      exec thread before request answer = some after → Undisturbed before after → holds after →
        Keeps platform post thread result (next answer) after) :
    Keeps platform post thread result ((Prog.perform request).bind next) state := by
  refine safe_op stable start fun before answer after wf held done _ => ?_
  have undisturbed := exec_quiet calm done
  refine ⟨.quiet undisturbed, rest before answer after wf
    (undisturbed_wellFormed undisturbed wf) done undisturbed ?_⟩
  exact undisturbed_holds stable undisturbed wf held

/-- A part that only reads, waits and talks to nodes, then the rest. -/
theorem keeps_calm {first : Async Mid} {rest : Mid → Async Out} {fact : Mid → Prop}
    (stable : Stable (contract post) thread holds) (only : first.Only quiet)
    (ends : first.Ends fact) (start : holds state)
    (tail : ∀ out later, WellFormed later → fact out → holds later →
      Keeps platform post thread result (rest out) later) :
    Keeps platform post thread result (first.bind rest) state := by
  refine safe_bind (safe_only stable only ends start ?_) fun out later wf both =>
    tail out later wf both.1 both.2
  intro before request answer after calm wf held done _
  have undisturbed := exec_quiet calm done
  exact ⟨.quiet undisturbed, undisturbed_holds stable undisturbed wf held⟩

theorem keeps_uuid4 {next : Uuid → Async Out} (stable : Stable (contract post) thread holds)
    (start : holds state)
    (own : ∀ before id, holds before →
      holds { before with issued := (thread, id) :: before.issued })
    (rest : ∀ id later, WellFormed later → holds later → Drawn thread id later →
      Keeps platform post thread result (next id) later) :
    Keeps platform post thread result ((Prog.perform Op.uuid4).bind next) state := by
  refine safe_op stable start fun before id after wf held done _ => ?_
  obtain ⟨fresh, same⟩ := Option.ite_none_right_eq_some.mp done
  cases same
  refine ⟨.draw id fresh rfl, rest id _ (draw_wellFormed thread id fresh wf) (own before id held) ?_⟩
  exact ⟨List.mem_cons_self, fun member => fresh (wf.used_issued id member)⟩

theorem keeps_commit (transaction : Transaction) {next : Unit → Async Out}
    (stable : Stable (contract post) thread holds) (start : holds state)
    (enabled : ∀ before, WellFormed before → holds before → Enabled thread before transaction)
    (rest : ∀ before db, WellFormed before → holds before →
      before.db.commit transaction.writes = some db →
      Life thread before (recorded before thread transaction db) →
      WellFormed (recorded before thread transaction db) →
        Keeps platform post thread result (next ()) (recorded before thread transaction db)) :
    Keeps platform post thread result ((Prog.perform (Op.commit transaction.writes)).bind next) state := by
  refine safe_op stable start fun before answer after wf held done _ => ?_
  obtain ⟨db, committed, rfl⟩ := Option.map_eq_some_iff.mp done
  have life : Life thread before (recorded before thread transaction db) :=
    .commit transaction db (enabled before wf held) committed rfl
  exact ⟨life, rest before db wf held committed life (life_wellFormed life wf)⟩

theorem keeps_ret {out : Out} (stable : Stable (contract post) thread holds) (start : holds state)
    (done : ∀ later, WellFormed later → holds later → result out later) :
    Keeps platform post thread result (.ret out) state :=
  safe_ret stable start done

theorem recorded_logged (thread : Tid) (before : Shared) (transaction : Transaction) (db : Db) :
    Logged thread transaction.writes (recorded before thread transaction db) :=
  List.mem_append_right _ (List.mem_singleton.mpr rfl)

theorem gather_quiet (requests : List (Uuid × NodeRequest)) : (gather requests).Only quiet :=
  ⟨trivial, fun _ => ⟨trivial, fun _ => trivial⟩⟩

theorem call_quiet (node : Uuid) (request : NodeRequest) : (call node request).Only quiet :=
  Prog.only_bind (gather_quiet _) fun _ => trivial

theorem selectFiles_quiet (condition : Db → File → Bool) : (selectFiles condition).Only quiet :=
  ⟨trivial, fun _ => trivial⟩

theorem getFile_quiet (fileId : Uuid) : (getFile fileId).Only quiet :=
  ⟨trivial, fun _ => trivial⟩

theorem availability_quiet (files : List File) : (availability files).Only quiet := by
  unfold availability
  split
  · trivial
  · exact ⟨trivial, fun _ => trivial⟩

theorem shardCandidates_quiet (file : File) (exclude : List Uuid) (loaded : List StorageNode) :
    (shardCandidates file exclude loaded).Only quiet :=
  ⟨trivial, fun _ => trivial⟩

theorem fetchRounds_quiet (k fuel : Nat) (collected : Erasure.Blocks)
    (remaining : List (Shard × StorageNode)) :
    (fetchRounds platform k fuel collected remaining).Only quiet := by
  induction fuel generalizing collected remaining with
  | zero => trivial
  | succ fuel ih =>
      unfold fetchRounds
      split
      · exact Prog.only_bind (gather_quiet _) fun _ => ih _ _
      · trivial

theorem readFile_quiet (file : File) : (readFile platform file).Only quiet := by
  refine Prog.only_bind (shardCandidates_quiet _ _ _) fun candidates => ?_
  refine Prog.only_bind (fetchRounds_quiet _ _ _ _) fun blocks => ?_
  split
  · trivial
  · split
    · trivial
    · split <;> trivial

theorem placed_shard {db : Db} {row : Shard × StorageNode} (member : row ∈ db.placed) :
    row.1 ∈ db.shards ∧ row.2 ∈ db.nodes ∧ row.2.id = row.1.nodeId := by
  obtain ⟨shard, present, inside⟩ := List.mem_flatMap.mp member
  obtain ⟨node, registered, rfl⟩ := List.mem_map.mp inside
  obtain ⟨known, named⟩ := List.mem_filter.mp registered
  exact ⟨present, known, by simpa using named⟩

theorem mem_placed {db : Db} {shard : Shard} {node : StorageNode} (present : shard ∈ db.shards)
    (registered : node ∈ db.nodes) (named : node.id = shard.nodeId) :
    (shard, node) ∈ db.placed := by
  apply List.mem_flatMap.mpr
  refine ⟨shard, present, List.mem_map.mpr ⟨node, ?_, rfl⟩⟩
  exact List.mem_filter.mpr ⟨registered, by simpa using named⟩

/-- With distinct nodes the join has each row at most once, in table order. -/
theorem placed_sublist {db : Db} (distinct : (db.nodes.map (·.id)).Nodup) :
    (db.placed.map Prod.fst).Sublist db.shards := by
  have one : ∀ shard : Shard,
      (((db.nodes.filter (·.id = shard.nodeId)).map (shard, ·)).map Prod.fst).Sublist [shard] := by
    intro shard
    have same : ((db.nodes.filter (·.id = shard.nodeId)).map (·.id)).Nodup :=
      distinct.sublist (List.filter_sublist.map _)
    have every : ∀ node ∈ db.nodes.filter (·.id = shard.nodeId), node.id = shard.nodeId := by
      simp
    generalize db.nodes.filter (·.id = shard.nodeId) = nodes at same every
    cases nodes with
    | nil => exact List.nil_sublist _
    | cons node rest =>
        cases rest with
        | nil => exact List.Sublist.refl _
        | cons other more =>
            rw [List.map_cons, List.nodup_cons] at same
            refine absurd ?_ same.1
            rw [every node List.mem_cons_self, ← every other (by simp)]
            exact List.mem_cons_self
  unfold Db.placed
  induction db.shards with
  | nil => exact List.nil_sublist _
  | cons shard rest ih =>
      rw [List.flatMap_cons, List.map_append]
      exact (one shard).append ih

/-- `drawIds` leaves every id it returns, and every one drawn before, unused. -/
theorem drawIds_keeps (count : Nat) (earlier : List Uuid)
    (start : ∀ id ∈ earlier, Drawn thread id state) :
    Keeps platform post thread
      (fun ids later => ids.length = count ∧ ∀ id ∈ earlier ++ ids, Drawn thread id later)
      (drawIds count) state := by
  have stable : ∀ ids : List Uuid,
      Stable (contract post) thread fun shared => ∀ id ∈ ids, Drawn thread id shared :=
    fun ids before after wf later relies held id member =>
      drawn_stable id before after wf later relies (held id member)
  induction count generalizing earlier state with
  | zero => exact keeps_ret (stable earlier) start fun later _ held => ⟨rfl, by simpa using held⟩
  | succ count ih =>
      refine keeps_uuid4 (stable earlier) start ?_ fun id later wf held drawn => ?_
      · intro before id held other member
        exact ⟨List.mem_cons_of_mem _ (held other member).1, (held other member).2⟩
      · refine safe_bind (ih (earlier ++ [id]) ?_) fun ids last _ both => ?_
        · intro other member
          rcases List.mem_append.mp member with old | new
          · exact held other old
          · exact List.mem_singleton.mp new ▸ drawn
        · refine keeps_ret (stable (earlier ++ [id] ++ ids)) both.2 fun _ _ held => ?_
          exact ⟨by simp [both.1], by simpa using held⟩

theorem shardsOf_repoint {before after : Db} {old new node : Uuid}
    (shards : after.shards = before.shards.map (repointShard old new node)) (fileId : Uuid) :
    after.shardsOf fileId = (before.shardsOf fileId).map (repointShard old new node) := by
  unfold Db.shardsOf
  rw [shards, List.filter_map]
  congr 1
  apply List.filter_congr
  intro shard _
  simp only [Function.comp_apply, repointShard]
  split <;> rfl

theorem placed_perm {shared : Shared} (wf : WellFormed shared) {fileId : Uuid}
    {placed : List (Shard × StorageNode)}
    (order : placed.Perm (shared.db.placed.filter fun row => row.1.fileId = fileId)) :
    (placed.map Prod.fst).Perm (shared.db.shardsOf fileId) := by
  have joined : (shared.db.placed.map Prod.fst).Sublist shared.db.shards :=
    placed_sublist wf.nodes_nodup
  have whole : ∀ shard ∈ shared.db.shards, shard ∈ shared.db.placed.map Prod.fst := by
    intro shard present
    obtain ⟨node, registered, named⟩ := List.mem_map.mp (wf.hosted shard present)
    exact List.mem_map.mpr ⟨(shard, node), mem_placed present registered named, rfl⟩
  have distinct : shared.db.shards.Nodup := List.Nodup.of_map _ wf.shards_nodup
  have same : (shared.db.placed.map Prod.fst).Perm shared.db.shards := by
    apply (List.perm_ext_iff_of_nodup (distinct.sublist joined) distinct).mpr
    exact fun shard => ⟨fun member => joined.subset member, whole shard⟩
  have mine := same.filter fun row => row.fileId = fileId
  rw [List.filter_map] at mine
  exact (order.map Prod.fst).trans mine

theorem placed_belongs {shared : Shared} (wf : WellFormed shared) {fileId : Uuid}
    {placed : List (Shard × StorageNode)}
    (order : placed.Perm (shared.db.placed.filter fun row => row.1.fileId = fileId)) :
    ∀ row ∈ placed, Belongs row.1.id fileId shared := by
  intro row member
  obtain ⟨joined, named⟩ := List.mem_filter.mp (order.mem_iff.mp member)
  have stored := (placed_shard joined).1
  refine ⟨wf.shards_used row.1 stored, fun other inside same => ?_⟩
  rw [List.inj_on_of_nodup_map wf.shards_nodup inside stored same]
  simpa using named

theorem confirmed_subset (placed : List (Shard × StorageNode)) (replies : List Reply) :
    ∀ id ∈ confirmed placed replies, ∃ row ∈ placed, row.1.id = id := by
  intro id member
  obtain ⟨⟨row, reply⟩, paired, hit⟩ := List.mem_filterMap.mp member
  refine ⟨row, (List.of_mem_zip paired).1, ?_⟩
  simp only [Option.ite_none_right_eq_some, Option.some.injEq] at hit
  exact hit.2

/-- The best-effort removal only ever drops rows of the deleted file. -/
theorem removeDeletedShards_keeps (file : File) (start : Gone file.id state)
    (stable : Stable (contract post) thread holds) (also : holds state)
    (own : ∀ before after, Life thread before after → holds before → holds after) :
    Keeps platform post thread (fun _ later => holds later) (removeDeletedShards file) state := by
  refine keeps_quiet (.selectPlaced _) (stable_and (gone_stable file.id) stable) trivial
    ⟨start, also⟩ ?_
  intro before placed after _ wf done _ held
  obtain ⟨order, same⟩ := Option.ite_none_right_eq_some.mp done
  cases same
  have belongs : ∀ id ∈ placed.map (·.1.id), Belongs id file.id before := by
    intro id member
    obtain ⟨row, present, rfl⟩ := List.mem_map.mp member
    exact placed_belongs wf order row present
  have every : Stable (contract post) thread fun shared =>
      ∀ id ∈ placed.map (·.1.id), Belongs id file.id shared :=
    fun first last wfFirst wfLast relies known id member =>
      belongs_stable id file.id first last wfFirst wfLast relies (known id member)
  refine keeps_calm (stable_and (stable_and (gone_stable file.id) stable) every) (gather_quiet _)
    (Prog.ends_true _) ⟨held, belongs⟩ fun replies later _ _ ready => ?_
  refine keeps_commit (.discard (confirmed placed replies))
    (stable_and (stable_and (gone_stable file.id) stable) every) ready ?_ ?_
  · rintro last - ⟨⟨gone, -⟩, known⟩ shard present hit owner inside named
    obtain ⟨row, inRows, same⟩ := confirmed_subset placed replies shard.id hit
    have mine := (known shard.id (List.mem_map.mpr ⟨row, inRows, same⟩)).2 shard present rfl
    exact gone.2 owner inside (named.trans mine)
  · intro last db _ both _ life _
    exact keeps_ret stable (own last _ life both.1.2) fun _ _ kept => kept

end SecureFileSystem.Conduct
