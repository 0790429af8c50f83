import SecureFileSystem.Handlers

/-!
What the worker's jobs keep. The repair loop carries two facts through its
partial states: the nodes the file occupies so far, and that the rows still to
be moved are rows of the file.
-/

namespace SecureFileSystem.Upkeep

open Base Database Fleet Session LifeCycle Program RelyGuarantee Erasure Files SecureFileSystem.Configuration
  Maintenance Service Interference Stability Conduct Handlers

variable {platform : Platform} {post : Tid → Job → Outcome → Shared → Prop} {thread : Tid}
  {state : Shared}

theorem probedAll_ofNodes (threshold time : Nat) (failures : Failures)
    (probes : List (StorageNode × Bool)) :
    ∀ write ∈ (probedAll threshold time failures probes).2, ofNodes write := by
  induction probes generalizing failures with
  | nil => exact nofun
  | cons probe rest ih =>
      intro write member
      rcases List.mem_append.mp member with here | later
      · unfold probed at here
        split at here
        · rcases List.mem_cons.mp here with rfl | here
          · trivial
          · split at here
            · rw [List.mem_singleton.mp here]
              trivial
            · cases here
        · dsimp only at here
          split at here
          · rw [List.mem_singleton.mp here]
            trivial
          · cases here
      · exact ih _ write later

theorem checkNodeHealth_keeps (settings : Settings) (failures : Failures) :
    Keeps platform post thread (fun _ _ => True) (checkNodeHealth settings failures) state := by
  refine keeps_quiet (.selectNodes _) trivial_stable trivial trivial
    fun _ nodes after _ _ _ _ _ => ?_
  refine keeps_calm trivial_stable (gather_quiet _) (Prog.ends_true _) trivial
    fun results later _ _ _ => ?_
  refine keeps_quiet (.now) trivial_stable trivial trivial
    fun _ time last _ _ _ _ _ => ?_
  refine keeps_commit (.observe _) trivial_stable trivial
    (fun _ _ _ => probedAll_ofNodes _ time failures _) fun before db _ _ _ _ _ => ?_
  exact keeps_ret trivial_stable trivial fun _ _ _ => trivial

theorem gcStaleFiles_keeps (stale : List File) :
    Keeps platform post thread (fun _ _ => True) (gcStaleFiles stale) state := by
  induction stale generalizing state with
  | nil => exact keeps_ret trivial_stable trivial fun _ _ _ => trivial
  | cons file rest ih =>
      refine keeps_quiet (.selectPlaced _) trivial_stable trivial trivial
        fun _ placed after _ _ _ _ _ => ?_
      refine keeps_calm trivial_stable (gather_quiet _) (Prog.ends_true _) trivial
        fun results later _ _ _ => ?_
      split
      · exact keeps_commit (.retract file.id) trivial_stable trivial
          (fun _ _ _ => trivial) fun before db _ _ _ _ _ => ih
      · exact ih

theorem gcStaleUploads_keeps (settings : Settings) :
    Keeps platform post thread (fun _ _ => True) (gcStaleUploads settings) state := by
  refine keeps_quiet (.now) trivial_stable trivial trivial
    fun _ time after _ _ _ _ _ => ?_
  exact keeps_quiet (.selectFiles _) trivial_stable trivial trivial
    fun _ stale last _ _ _ _ _ => gcStaleFiles_keeps stale

theorem gcPendingFiles_keeps (files : List File) (start : ∀ file ∈ files, Gone file.id state) :
    Keeps platform post thread (fun _ _ => True) (gcPendingFiles files) state := by
  induction files generalizing state with
  | nil => exact keeps_ret trivial_stable trivial fun _ _ _ => trivial
  | cons file rest ih =>
      have stable : Stable (contract post) thread fun shared => ∀ other ∈ rest,
          Gone other.id shared :=
        fun first last wfFirst wfLast relies held other member =>
          gone_stable other.id first last wfFirst wfLast relies (held other member)
      refine safe_bind (removeDeletedShards_keeps file (start file List.mem_cons_self) stable
        (fun other member => start other (List.mem_cons_of_mem _ member)) ?_)
        fun _ later _ held => ih held
      exact fun before after life held other member => life_gone life (held other member)

theorem gcDeletedFiles_keeps :
    Keeps platform post thread (fun _ _ => True) gcDeletedFiles state := by
  refine keeps_quiet (.selectFiles _) trivial_stable trivial trivial
    fun before pending after _ wf done _ _ => ?_
  obtain ⟨order, same⟩ := Option.ite_none_right_eq_some.mp done
  cases same
  refine gcPendingFiles_keeps pending fun file member => ?_
  obtain ⟨present, selected⟩ := List.mem_filter.mp (order.mem_iff.mp member)
  simp only [Bool.and_eq_true, decide_eq_true_eq] at selected
  refine ⟨wf.files_used file present, fun other inside named => ?_⟩
  rw [files_once wf inside present named]
  exact selected.1

abbrev Work := (Shard × StorageNode) × Bytes × StorageNode

def Ready (fileId : Uuid) (occupied : List Uuid) (work : List Work) (shared : Shared) : Prop :=
  Occupied fileId occupied shared ∧ ∀ one ∈ work, Belongs one.1.1.id fileId shared

theorem ready_stable (fileId : Uuid) (occupied : List Uuid) (work : List Work) :
    Stable (contract post) .worker (Ready fileId occupied work) :=
  fun before after wf later relies held =>
    ⟨occupied_stable fileId occupied before after wf later relies held.1,
      fun one member => belongs_stable one.1.1.id fileId before after wf later relies
        (held.2 one member)⟩

theorem repoint_occupied {shared : Shared} {db : Db} {fileId old new node : Uuid}
    {occupied : List Uuid} (start : Occupied fileId occupied shared)
    (life : Life .worker shared (recorded shared .worker (.repoint old new node) db))
    (done : shared.db.commit (Transaction.repoint old new node).writes = some db) :
    Occupied fileId (node :: occupied) (recorded shared .worker (.repoint old new node) db) := by
  refine ⟨used_mono life start.1, fun row member named => ?_⟩
  have effect := (commit_effect (.repoint old new node) nofun done).1
  have shards_eq : db.shards = shared.db.shards.map (repointShard old new node) :=
    congrArg Catalog.shards effect
  change row ∈ db.shards at member
  rw [shards_eq] at member
  obtain ⟨source, present, rfl⟩ := List.mem_map.mp member
  by_cases hit : source.id = old
  · simp [repointShard, hit]
  · simp only [repointShard, hit, if_false] at named ⊢
    exact List.mem_cons_of_mem _ (start.2 source present named)

theorem repairShards_keeps (fileId : Uuid) (occupied : List Uuid) (work : List Work)
    (start : Ready fileId occupied work state)
    (free : ∀ one ∈ work, one.2.2.id ∉ occupied)
    (distinct : (work.map fun one => one.2.2.id).Nodup) :
    Keeps platform post .worker (fun _ _ => True) (repairShards platform work) state := by
  induction work generalizing occupied state with
  | nil => exact keeps_ret trivial_stable trivial fun _ _ _ => trivial
  | cons one rest ih =>
      obtain ⟨⟨shard, oldNode⟩, block, target⟩ := one
      rw [List.map_cons, List.nodup_cons] at distinct
      have skip : ∀ later, Ready fileId occupied (((shard, oldNode), block, target) :: rest) later →
          Keeps platform post .worker (fun _ _ => True) (repairShards platform rest) later :=
        fun later held => ih occupied
          ⟨held.1, fun other member => held.2 other (List.mem_cons_of_mem _ member)⟩
          (fun other member => free other (List.mem_cons_of_mem _ member)) distinct.2
      unfold repairShards
      split
      · exact skip state start
      refine keeps_uuid4 (ready_stable _ _ _) start (fun _ _ held => held)
        fun newId later _ held drawn => ?_
      refine keeps_calm (stable_and (ready_stable _ _ _) (drawn_stable newId)) (call_quiet _ _)
        (Prog.ends_true _) ⟨held, drawn⟩ fun reply later _ _ both => ?_
      split
      · refine keeps_commit (.repoint shard.id newId target.id)
          (stable_and (ready_stable _ _ _) (drawn_stable newId)) both ?_ ?_
        · rintro before - ⟨held, drawn⟩
          refine ⟨rfl, drawn.1, drawn.2, fun moved present named other inside owner => ?_⟩
          have mine := (held.2 _ List.mem_cons_self).2 moved present named
          have on := held.1.2 other inside (owner.trans mine)
          intro same
          exact free _ List.mem_cons_self (same ▸ on)
        · intro before db _ both done life _
          have next : Ready fileId (target.id :: occupied) rest
              (recorded before .worker (.repoint shard.id newId target.id) db) :=
            ⟨repoint_occupied both.1.1 life done, fun other member =>
              life_belongs life (both.1.2 other (List.mem_cons_of_mem _ member))⟩
          refine keeps_calm (ready_stable _ _ _) (call_quiet _ _) (Prog.ends_true _) next
            fun _ last _ _ held => ?_
          refine safe_bind (ih (target.id :: occupied) held ?_ distinct.2) fun _ _ _ _ =>
            keeps_ret trivial_stable trivial fun _ _ _ => trivial
          intro other member taken
          rcases List.mem_cons.mp taken with same | old
          · exact distinct.1 (List.mem_map.mpr ⟨other, member, same⟩)
          · exact free other (List.mem_cons_of_mem _ member) old
      · exact skip later both.1

theorem placed_occupied {shared : Shared} (wf : WellFormed shared) {fileId : Uuid}
    (known : fileId ∈ used shared) {placed : List (Shard × StorageNode)}
    (order : placed.Perm (shared.db.placed.filter fun row => row.1.fileId = fileId)) :
    Occupied fileId (placed.map fun row => row.2.id) shared := by
  refine ⟨known, fun shard present named => ?_⟩
  obtain ⟨node, registered, same⟩ := List.mem_map.mp (wf.hosted shard present)
  refine List.mem_map.mpr ⟨(shard, node), order.mem_iff.mpr ?_, same⟩
  refine List.mem_filter.mpr ⟨List.mem_flatMap.mpr ⟨shard, present, ?_⟩, by simpa using named⟩
  exact List.mem_map_of_mem (List.mem_filter.mpr ⟨registered, by simpa using same⟩)

theorem zip_fst_sublist {Left Right : Type} (left : List Left) (right : List Right) :
    ((left.zip right).map Prod.fst).Sublist left := by
  induction left generalizing right with
  | nil => simp
  | cons first rest ih =>
      cases right with
      | nil => simp
      | cons other others => simpa using ih others

theorem zip_snd_sublist {Left Right : Type} (left : List Left) (right : List Right) :
    ((left.zip right).map Prod.snd).Sublist right := by
  induction left generalizing right with
  | nil => exact List.nil_sublist right
  | cons head rest ih =>
      cases right with
      | nil => exact List.nil_sublist _
      | cons first others => exact (ih others).cons_cons first

/-- The targets of the loop are distinct healthy nodes the file is not on. -/
theorem targets_distinct {shared : Shared} (wf : WellFormed shared)
    {condition : StorageNode → Bool} {occupied : List Uuid} {healthy targets : List StorageNode}
    (selected : healthy.Perm (shared.db.nodes.filter condition))
    (shuffled : targets.Perm (healthy.filter fun node => node.id ∉ occupied)) :
    (∀ node ∈ targets, node.id ∉ occupied) ∧ (targets.map (·.id)).Nodup := by
  refine ⟨fun node member => ?_, ?_⟩
  · simpa using (List.mem_filter.mp (shuffled.mem_iff.mp member)).2
  · have registered : ((shared.db.nodes.filter condition).map (·.id)).Nodup :=
      wf.nodes_nodup.sublist (List.filter_sublist.map _)
    have every : (healthy.map (·.id)).Nodup := (selected.map _).nodup_iff.mpr registered
    exact (shuffled.map _).nodup_iff.mpr (every.sublist (List.filter_sublist.map _))

theorem repairFile_keeps (fileId : Uuid) (badShardIds : List Uuid) :
    Keeps platform post .worker (fun _ _ => True) (repairFile platform fileId badShardIds)
      state := by
  refine keeps_head trivial_stable trivial fun found later wf _ known => ?_
  cases found with
  | none => exact keeps_ret trivial_stable trivial fun _ _ _ => trivial
  | some file =>
      obtain ⟨present, named⟩ := known file rfl
      simp only [decide_eq_true_eq] at named
      have usedId : fileId ∈ used later := named ▸ wf.files_used file present
      have stable_used : Stable (contract post) Tid.worker fun shared => fileId ∈ used shared :=
        stable_life fun _ _ _ _ _ life member => used_mono life member
      dsimp only
      split
      · exact keeps_ret trivial_stable trivial fun _ _ _ => trivial
      refine keeps_quiet (.selectPlaced _) stable_used trivial usedId
        fun before placed after _ wf done _ usedId => ?_
      obtain ⟨order, same⟩ := Option.ite_none_right_eq_some.mp done
      cases same
      -- The hosts of the file and the owners of the rows: what the repointing relies on.
      have occupied := placed_occupied wf usedId order
      have belongs := placed_belongs wf order
      have stable : Stable (contract post) Tid.worker fun shared =>
          Occupied fileId (placed.map fun row => row.2.id) shared ∧
            ∀ row ∈ placed, Belongs row.1.id fileId shared :=
        fun first last wfFirst wfLast relies held =>
          ⟨occupied_stable _ _ first last wfFirst wfLast relies held.1, fun row member =>
            belongs_stable _ _ first last wfFirst wfLast relies (held.2 row member)⟩
      refine keeps_calm stable (shardCandidates_quiet _ _ _) (Prog.ends_true _)
        ⟨occupied, belongs⟩ fun good later _ _ held => ?_
      refine keeps_calm stable (fetchRounds_quiet _ _ _ _) (Prog.ends_true _) held
        fun blocks later _ _ held => ?_
      split
      · exact keeps_ret trivial_stable trivial fun _ _ _ => trivial
      refine keeps_quiet (.selectNodes _) stable trivial held
        fun middle healthy _ _ wf done _ held => ?_
      obtain ⟨selected, same⟩ := Option.ite_none_right_eq_some.mp done
      cases same
      refine keeps_quiet (.shuffle _) stable trivial held
        fun _ targets last _ _ done _ held => ?_
      obtain ⟨shuffled, -⟩ := Option.ite_none_right_eq_some.mp done
      obtain ⟨free, distinct⟩ := targets_distinct wf selected shuffled
      split
      · exact keeps_ret trivial_stable trivial fun _ _ _ => trivial
      rename_i rebuilt _
      refine safe_bind (repairShards_keeps fileId (placed.map fun row => row.2.id) _
        ⟨held.1, fun one member => ?_⟩ (fun one member => ?_) ?_) fun _ _ _ _ =>
          keeps_ret trivial_stable trivial fun _ _ _ => trivial
      · exact held.2 _ (List.mem_filter.mp (List.of_mem_zip member).1).1
      · exact free _ (List.of_mem_zip (List.of_mem_zip member).2).2
      · have prefixed := ((zip_snd_sublist (placed.filter fun row =>
          row.1.id ∈ badShardIds) (rebuilt.zip targets)).map Prod.snd).trans
            (zip_snd_sublist rebuilt targets)
        simpa [List.map_map, Function.comp_def] using distinct.sublist (prefixed.map (·.id))

theorem repairFiles_keeps (groups : ByFile) :
    Keeps platform post .worker (fun _ _ => True) (repairFiles platform groups) state := by
  induction groups generalizing state with
  | nil => exact keeps_ret trivial_stable trivial fun _ _ _ => trivial
  | cons group rest ih =>
      obtain ⟨fileId, shardIds⟩ := group
      refine safe_bind (repairFile_keeps fileId shardIds) fun out later _ _ => ?_
      cases out with
      | error error => exact keeps_ret trivial_stable trivial fun _ _ _ => trivial
      | ok repaired =>
          refine safe_bind ih fun out last _ _ => ?_
          cases out <;> exact keeps_ret trivial_stable trivial fun _ _ _ => trivial

theorem repairLostShards_keeps (settings : Settings) :
    Keeps platform post .worker (fun _ _ => True) (repairLostShards platform settings) state := by
  refine keeps_quiet (.now) trivial_stable trivial trivial
    fun _ time after _ _ _ _ _ => ?_
  exact keeps_quiet (.selectPlaced _) trivial_stable trivial trivial
    fun _ rows last _ _ _ _ _ => repairFiles_keeps _

theorem scrubShards_quiet (bad : ByFile) (rows : List (Shard × StorageNode)) :
    (scrubShards platform bad rows).Only quiet := by
  induction rows generalizing bad with
  | nil => trivial
  | cons row rest ih =>
      refine Prog.only_bind (call_quiet _ _) fun reply => ?_
      split
      · exact ih _
      · exact ih _
      · exact ih _
      · split <;> exact ih _

theorem scrub_keeps (settings : Settings) :
    Keeps platform post .worker (fun _ _ => True) (scrub platform settings) state := by
  unfold scrub
  split
  · exact keeps_ret trivial_stable trivial fun _ _ _ => trivial
  refine keeps_quiet (.selectPlaced _) trivial_stable trivial trivial
    fun _ rows after _ _ _ _ _ => ?_
  exact keeps_calm trivial_stable (scrubShards_quiet _ _) (Prog.ends_true _) trivial
    fun bad later _ _ _ => repairFiles_keeps bad

end SecureFileSystem.Upkeep
