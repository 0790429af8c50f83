import SecureFileSystem.Ledger
import SecureFileSystem.RelyGuarantee
import SecureFileSystem.Service

/-!
What a thread of the service may rely on: the others draw ids and commit
enabled transactions, and nothing else reaches the catalogue. The assertions
the handlers carry from one statement to the next are stable under that.
-/

namespace SecureFileSystem.Interference

open Base Database Session LifeCycle Ledger Program RelyGuarantee Service

/-- A step that leaves the catalogue, the log and the drawn ids alone. -/
structure Undisturbed (before after : Shared) : Prop where
  files : after.db.files = before.db.files
  shards : after.db.shards = before.db.shards
  log : after.log = before.log
  issued : after.issued = before.issued
  nodes_nodup : (before.db.nodes.map (·.id)).Nodup → (after.db.nodes.map (·.id)).Nodup
  nodes_kept : ∀ id ∈ before.db.nodes.map (·.id), id ∈ after.db.nodes.map (·.id)

/-- One step of a thread as the catalogue sees it. -/
inductive Life (thread : Tid) (before after : Shared) : Prop
  | quiet (undisturbed : Undisturbed before after)
  | draw (id : Uuid) (fresh : id ∉ before.issued.map (·.2))
      (same : after = { before with issued := (thread, id) :: before.issued })
  | commit (transaction : Transaction) (db : Db) (enabled : Enabled thread before transaction)
      (done : before.db.commit transaction.writes = some db)
      (same : after = recorded before thread transaction db)

def Relies (thread : Tid) (before after : Shared) : Prop :=
  Undisturbed before after ∨ ∃ other, other ≠ thread ∧ Life other before after

def contract (post : Tid → Job → Outcome → Shared → Prop) :
    Contract Shared Tid Job Event Op Res Outcome where
  inv := WellFormed
  rely := Relies
  guar := Life
  post := post
  allowed := fun _ _ => True

theorem undisturbed_wellFormed {before after : Shared} (undisturbed : Undisturbed before after)
    (wf : WellFormed before) : WellFormed after := by
  obtain ⟨clock, ⟨files, shards, nodes, audit⟩, log, issued, objects, flights⟩ := before
  obtain ⟨clock', ⟨files', shards', nodes', audit'⟩, log', issued', objects', flights'⟩ := after
  obtain ⟨rfl, rfl, rfl, rfl, distinct, kept⟩ := undisturbed
  exact ⟨wf.issued_nodup, wf.used_issued, wf.files_used, wf.shards_used, wf.files_nodup,
    wf.shards_nodup, wf.shards_owned, distinct wf.nodes_nodup,
    fun shard member => kept _ (wf.hosted shard member), wf.audited, wf.uploaded_once, wf.descends, wf.published, wf.revoked⟩

theorem draw_wellFormed {shared : Shared} (thread : Tid) (id : Uuid)
    (fresh : id ∉ shared.issued.map (·.2)) (wf : WellFormed shared) :
    WellFormed { shared with issued := (thread, id) :: shared.issued } :=
  ⟨List.nodup_cons.mpr ⟨fresh, wf.issued_nodup⟩,
    fun other member => List.mem_cons_of_mem _ (wf.used_issued other member),
    wf.files_used, wf.shards_used, wf.files_nodup, wf.shards_nodup, wf.shards_owned,
    wf.nodes_nodup, wf.hosted, wf.audited, wf.uploaded_once, wf.descends, wf.published, wf.revoked⟩

theorem life_wellFormed {thread : Tid} {before after : Shared} (life : Life thread before after)
    (wf : WellFormed before) : WellFormed after := by
  cases life with
  | quiet undisturbed => exact undisturbed_wellFormed undisturbed wf
  | draw id fresh same => exact same ▸ draw_wellFormed thread id fresh wf
  | commit transaction db enabled done same => exact same ▸ commit_wellFormed wf enabled done

/-- Nodes, clock and operator never touch files or shard rows. -/
theorem environment_undisturbed {platform : Platform} {before after : Shared} (event : Event)
    (done : environment platform before event = some after) : Undisturbed before after := by
  have executed : ∀ handle flight, Undisturbed before (before.execute platform handle flight) := by
    intro handle flight
    unfold Shared.execute
    split <;> exact ⟨rfl, rfl, rfl, rfl, id, fun _ member => member⟩
  cases event with
  | execute handle =>
      obtain ⟨flight, -, rfl⟩ := Option.map_eq_some_iff.mp done
      exact executed handle flight
  | lose handle =>
      obtain ⟨flight, -, rfl⟩ := Option.map_eq_some_iff.mp done
      exact ⟨rfl, rfl, rfl, rfl, id, fun _ member => member⟩
  | misreply handle response =>
      obtain ⟨flight, -, rfl⟩ := Option.map_eq_some_iff.mp done
      exact ⟨rfl, rfl, rfl, rfl, id, fun _ member => member⟩
  | register node =>
      simp only [environment, Option.ite_none_right_eq_some, Option.some.injEq] at done
      obtain ⟨unknown, rfl⟩ := done
      refine ⟨rfl, rfl, rfl, rfl, fun distinct => ?_, fun id member => ?_⟩
      · simp only [List.map_append, List.map_cons, List.map_nil]
        exact List.Nodup.append distinct (List.nodup_singleton _) (by simpa using unknown)
      · simp only [List.map_append]
        exact List.mem_append_left _ member
  | tick seconds => cases done; exact ⟨rfl, rfl, rfl, rfl, id, fun _ member => member⟩
  | damage node shardId entry => cases done; exact ⟨rfl, rfl, rfl, rfl, id, fun _ member => member⟩
  | operator node status =>
      cases done
      have same : ∀ row : StorageNode,
          (if row.id = node then { row with status := status } else row).id = row.id := by
        intro row
        split <;> rfl
      refine ⟨rfl, rfl, rfl, rfl, fun distinct => ?_, fun id member => ?_⟩
      · simpa [List.map_map, Function.comp_def, same] using distinct
      · simpa [List.map_map, Function.comp_def, same] using member

theorem composes (platform : Platform) (post : Tid → Job → Outcome → Shared → Prop) :
    Composes (service platform) (contract post) where
  guar_inv := fun _ _ _ wf life => life_wellFormed life wf
  guar_rely := fun _ other _ _ different _ life => Or.inr ⟨other, different.symm, life⟩
  env_inv := fun _ event _ wf done _ =>
    undisturbed_wellFormed (environment_undisturbed event done) wf
  env_rely := fun _ _ event _ _ done _ => Or.inl (environment_undisturbed event done)

def quiet : Op → Prop
  | .uuid4 | .commit _ => False
  | _ => True

theorem exec_quiet {thread : Tid} {before after : Shared} {request : Op} {answer : Res request}
    (calm : quiet request) (done : exec thread before request answer = some after) :
    Undisturbed before after := by
  have guarded : ∀ (condition : Prop) [Decidable condition],
      (if condition then some before else none) = some after → Undisturbed before after := by
    intro condition _ passed
    obtain ⟨-, same⟩ := Option.ite_none_right_eq_some.mp passed
    cases same
    exact ⟨rfl, rfl, rfl, rfl, id, fun _ member => member⟩
  cases request with
  | now => exact guarded _ done
  | shuffle nodes => exact guarded _ done
  | selectFiles condition => exact guarded _ done
  | selectPlaced condition => exact guarded _ done
  | selectNodes condition => exact guarded _ done
  | send requests =>
      obtain ⟨-, same⟩ := Option.ite_none_right_eq_some.mp done
      cases same
      exact ⟨rfl, rfl, rfl, rfl, id, fun _ member => member⟩
  | await handles =>
      obtain ⟨flights, -, rfl⟩ := Option.map_eq_some_iff.mp done
      exact ⟨rfl, rfl, rfl, rfl, id, fun _ member => member⟩
  | uuid4 => exact calm.elim
  | commit writes => exact calm.elim

def commits : Op → List (List Write)
  | .commit writes => [writes]
  | _ => []

theorem exec_log {thread : Tid} {before after : Shared} {request : Op} {answer : Res request}
    (done : exec thread before request answer = some after) :
    after.log = before.log ++ (commits request).map fun writes => (thread, writes) := by
  cases request with
  | commit writes =>
      obtain ⟨db, -, rfl⟩ := Option.map_eq_some_iff.mp done
      rfl
  | uuid4 =>
      obtain ⟨-, same⟩ := Option.ite_none_right_eq_some.mp done
      cases same
      exact (List.append_nil _).symm
  | _ => exact (exec_quiet (by trivial) done).log.trans (List.append_nil _).symm

theorem exec_db {thread : Tid} {before after : Shared} {request : Op} {answer : Res request}
    (reads : commits request = []) (done : exec thread before request answer = some after) :
    after.db = before.db := by
  have guarded : ∀ (condition : Prop) [Decidable condition],
      (if condition then some before else none) = some after → after.db = before.db := by
    intro condition _ passed
    obtain ⟨-, same⟩ := Option.ite_none_right_eq_some.mp passed
    cases same
    rfl
  cases request with
  | now => exact guarded _ done
  | shuffle nodes => exact guarded _ done
  | selectFiles condition => exact guarded _ done
  | selectPlaced condition => exact guarded _ done
  | selectNodes condition => exact guarded _ done
  | uuid4 =>
      obtain ⟨-, same⟩ := Option.ite_none_right_eq_some.mp done
      cases same
      rfl
  | send requests =>
      obtain ⟨-, same⟩ := Option.ite_none_right_eq_some.mp done
      cases same
      rfl
  | await handles =>
      obtain ⟨flights, -, rfl⟩ := Option.map_eq_some_iff.mp done
      rfl
  | commit writes => cases reads

def reads : Op → Prop
  | .now | .shuffle _ | .selectFiles _ | .selectPlaced _ | .selectNodes _ => True
  | _ => False

theorem exec_reads {thread : Tid} {before after : Shared} {request : Op} {answer : Res request}
    (reading : reads request) (done : exec thread before request answer = some after) :
    after = before := by
  have same : ∀ (condition : Prop) [Decidable condition],
      (if condition then some before else none) = some after → after = before := by
    intro condition _ passed
    obtain ⟨-, taken⟩ := Option.ite_none_right_eq_some.mp passed
    exact (Option.some.inj taken).symm
  cases request with
  | now => exact same _ done
  | shuffle _ => exact same _ done
  | selectFiles _ => exact same _ done
  | selectPlaced _ => exact same _ done
  | selectNodes _ => exact same _ done
  | _ => exact reading.elim

end SecureFileSystem.Interference
