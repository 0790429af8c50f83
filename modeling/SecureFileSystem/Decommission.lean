import SecureFileSystem.Guarantees
import SecureFileSystem.Requests

/-!
Decommissioned nodes and the health check. A round reads the nodes, probes them
and writes back only what has changed; it brings a node back that the operator
has retired since the read exactly when the probe calls for a change of status.
-/

namespace SecureFileSystem.Decommission

open Base Database Fleet Session Erasure Files SecureFileSystem.Configuration Maintenance Routers Program Transition
  Service Conduct Handlers Requests

variable {platform : Platform}

def Modest : Op → Prop
  | .commit writes => ∀ node status, .setStatus node status ∉ writes
  | _ => True

/-- Only the health check writes the status column. -/
theorem program_modest (job : Job)
    (other : ∀ settings failures, job ≠ .checkNodeHealth settings failures) :
    (program platform job).Only Modest := by
  apply Prog.informed_only (program_conforms (fun _ => False) job other)
  intro known request allowed
  cases request with
  | commit writes => exact allowed.2
  | _ => trivial

def Steady (settings : Settings) (failures : Failures) (node : StorageNode) (healthy : Bool) :
    Prop :=
  if healthy then node.status = .healthy
  else ¬ (node.status = .healthy ∧ settings.nodeFailureThreshold ≤ failures node.id + 1)

def committing (settings : Settings) (failures : Failures) (rows : List StorageNode)
    (replies : List Reply) (time : Nat) : Async Outcome := do
  commit (probedAll settings.nodeFailureThreshold time failures
    (rows.zip (replies.map isHealthy))).2
  return .returned 0

def recording (settings : Settings) (failures : Failures) (rows : List StorageNode)
    (replies : List Reply) : Async Outcome := do
  let time ← now
  committing settings failures rows replies time

def waiting (settings : Settings) (failures : Failures) (rows : List StorageNode)
    (handles : List Nat) : Async Outcome := do
  let replies ← await handles
  recording settings failures rows replies

def probing (settings : Settings) (failures : Failures) (rows : List StorageNode) :
    Async Outcome := do
  let handles ← send (rows.map fun node => (node.id, .healthz))
  waiting settings failures rows handles

/-- A probe calls for no change of a node's status. -/
def Agrees (settings : Settings) (failures : Failures) (rows : List StorageNode)
    (replies : List Reply) (node : Uuid) : Prop :=
  ∀ pair ∈ rows.zip (replies.map isHealthy), pair.1.id = node →
    Steady settings failures pair.1 pair.2

inductive Round (platform : Platform) (settings : Settings) (failures : Failures)
    (fine : List StorageNode → List Reply → Prop) : Async Outcome → Prop
  | reading : Round platform settings failures fine
      (program platform (.checkNodeHealth settings failures))
  | probing (rows : List StorageNode) (distinct : (rows.map (·.id)).Nodup) :
      Round platform settings failures fine (probing settings failures rows)
  | waiting (rows : List StorageNode) (handles : List Nat) (distinct : (rows.map (·.id)).Nodup) :
      Round platform settings failures fine (waiting settings failures rows handles)
  | recording (rows : List StorageNode) (replies : List Reply)
      (distinct : (rows.map (·.id)).Nodup) (agreed : fine rows replies) :
      Round platform settings failures fine (recording settings failures rows replies)
  | committing (rows : List StorageNode) (replies : List Reply) (time : Nat)
      (distinct : (rows.map (·.id)).Nodup) (agreed : fine rows replies) :
      Round platform settings failures fine (committing settings failures rows replies time)
  | done : Round platform settings failures fine (.ret (.returned 0))

/-- Every thread is inside its job: a health check in a round, any other job
with no status to write. -/
def OnCourse (platform : Platform)
    (fine : Settings → Failures → List StorageNode → List Reply → Prop)
    (config : ServiceConfig) : Prop :=
  ∀ thread job rest, config.threads thread = .running job rest →
    (∃ settings failures, job = .checkNodeHealth settings failures ∧
      Round platform settings failures (fine settings failures) rest) ∨ rest.Only Modest

theorem onCourse_set (fine : Settings → Failures → List StorageNode → List Reply → Prop)
    (config : ServiceConfig) (moving : Tid) (status : Status Job Op Res Outcome)
    (course : OnCourse platform fine config)
    (moved : ∀ job rest, status = .running job rest →
      (∃ settings failures, job = .checkNodeHealth settings failures ∧
        Round platform settings failures (fine settings failures) rest) ∨ rest.Only Modest) :
    OnCourse platform fine (config.set moving status) := by
  intro thread job rest running
  rw [RelyGuarantee.threads_set] at running
  by_cases same : thread = moving
  · rw [if_pos same] at running
    exact moved job rest running
  · rw [if_neg same] at running
    exact course thread job rest running

theorem onCourse_step (fine : Settings → Failures → List StorageNode → List Reply → Prop)
    (before after : ServiceConfig) (label : ServiceLabel)
    (registered : (before.shared.db.nodes.map (·.id)).Nodup)
    (course : OnCourse platform fine before)
    (taken : Step (service platform) before label after)
    (heard : ∀ thread handles replies settings failures rows,
      label = .act thread (.await handles) replies →
        before.threads thread =
          .running (.checkNodeHealth settings failures) (waiting settings failures rows handles) →
        fine settings failures rows replies) :
    OnCourse platform fine after := by
  cases taken with
  | @start thread job idle may =>
      apply onCourse_set fine before thread _ course
      rintro _ _ ⟨⟩
      -- Only a round can set a status; all other jobs are modest from the start.
      by_cases health : ∃ settings failures, job = .checkNodeHealth settings failures
      · obtain ⟨settings, failures, rfl⟩ := health
        exact Or.inl ⟨settings, failures, rfl, .reading⟩
      · right
        apply program_modest
        rintro settings failures rfl
        exact health ⟨settings, failures, rfl⟩
  | @act thread job request next answer shared at_op done =>
      apply onCourse_set fine before thread _ course
      rintro _ _ ⟨⟩
      rcases course thread job _ at_op with ⟨settings, failures, rfl, round⟩ | modest
      · left
        refine ⟨settings, failures, rfl, ?_⟩
        generalize waits : Prog.op request next = rest at round
        cases round with
        | reading =>
            cases waits
            have rows := (Option.ite_none_right_eq_some.mp done).1
            apply Round.probing answer
            exact (rows.map (·.id)).nodup_iff.mpr (registered.sublist (List.filter_sublist.map _))
        | probing rows distinct =>
            cases waits
            exact .waiting rows answer distinct
        | waiting rows handles distinct =>
            cases waits
            exact .recording rows answer distinct
              (heard thread handles answer settings failures rows rfl at_op)
        | recording rows replies distinct agreed =>
            cases waits
            exact .committing rows replies answer distinct agreed
        | committing rows replies time distinct agreed =>
            cases waits
            exact .done
        | done => cases waits
      · exact Or.inr (modest.2 answer)
  | fail at_op => exact onCourse_set fine before _ _ course nofun
  | finish at_ret => exact onCourse_set fine before _ _ course nofun
  | env done => exact course

theorem probedAll_status (settings : Settings) (time : Nat) (failures : Failures)
    (pairs : List (StorageNode × Bool)) (distinct : (pairs.map (·.1.id)).Nodup) (node : Uuid)
    (status : NodeStatus)
    (written : .setStatus node status ∈
      (probedAll settings.nodeFailureThreshold time failures pairs).2) :
    ∃ pair ∈ pairs, pair.1.id = node ∧ ¬ Steady settings failures pair.1 pair.2 := by
  induction pairs generalizing failures with
  | nil => cases written
  | cons first rest ih =>
      obtain ⟨row, healthy⟩ := first
      rw [List.map_cons, List.nodup_cons] at distinct
      rcases List.mem_append.mp written with now | later
      · refine ⟨(row, healthy), List.mem_cons_self, ?_⟩
        unfold probed at now
        cases healthy with
        | true =>
            by_cases up : row.status = .healthy
            · simp [up] at now
            · have same : node = row.id ∧ status = .healthy := by simpa [up] using now
              simp [Steady, same.1, up]
        | false =>
            by_cases down : row.status = .healthy ∧
                settings.nodeFailureThreshold ≤ failures row.id + 1
            · have same : node = row.id ∧ status = .unreachable := by simpa [down] using now
              simp [Steady, same.1, down]
            · simp [down] at now
      · obtain ⟨pair, member, same, unsteady⟩ := ih _ distinct.2 later
        have apart : pair.1.id ≠ row.id := fun equal =>
          distinct.1 (List.mem_map.mpr ⟨pair, member, equal⟩)
        have counted : (probed settings.nodeFailureThreshold time failures row healthy).1
            pair.1.id = failures pair.1.id := by
          unfold probed
          cases healthy <;> simp [Function.update_of_ne apart]
        refine ⟨pair, List.mem_cons_of_mem _ member, same, ?_⟩
        unfold Steady at unsteady ⊢
        rwa [counted] at unsteady

/-- The node is in the table, as decommissioned. -/
def Retired (node : Uuid) (shared : Shared) : Prop :=
  node ∈ shared.db.nodes.map (·.id) ∧
    ∀ row ∈ shared.db.nodes, row.id = node → row.status = .decommissioned

theorem write_statuses (node : Uuid) (db after : Db) (write : Write)
    (other : ∀ status, write ≠ .setStatus node status) (done : db.write write = some after)
    (retired : ∀ row ∈ db.nodes, row.id = node → row.status = .decommissioned) :
    ∀ row ∈ after.nodes, row.id = node → row.status = .decommissioned := by
  cases write with
  | setLastSeen target seen =>
      cases done
      intro row member same
      obtain ⟨old, held, rfl⟩ := List.mem_map.mp member
      by_cases hit : old.id = target
      · simp only [hit, if_true] at same ⊢
        exact retired old held (hit.trans same)
      · simp only [hit, if_false] at same ⊢
        exact retired old held same
  | setStatus target status =>
      cases done
      intro row member same
      obtain ⟨old, held, rfl⟩ := List.mem_map.mp member
      by_cases hit : old.id = target
      · simp only [hit, if_true] at same
        exact absurd (congrArg (Write.setStatus · status) same) (other status)
      · simp only [hit, if_false] at same ⊢
        exact retired old held same
  | deleteFile _ => cases done; exact retired
  | deleteShards _ => cases done; exact retired
  | _ =>
      simp only [Db.write, Option.ite_none_right_eq_some, Option.some.injEq] at done
      obtain ⟨-, rfl⟩ := done
      exact retired

theorem commit_statuses (node : Uuid) (db after : Db) (writes : List Write)
    (others : ∀ status, .setStatus node status ∉ writes) (done : db.commit writes = some after)
    (retired : ∀ row ∈ db.nodes, row.id = node → row.status = .decommissioned) :
    ∀ row ∈ after.nodes, row.id = node → row.status = .decommissioned := by
  induction writes generalizing db with
  | nil =>
      cases done
      exact retired
  | cons write rest ih =>
      obtain ⟨middle, one, done⟩ := Option.bind_eq_some_iff.mp done
      apply ih middle
      · intro status member
        exact others status (List.mem_cons_of_mem _ member)
      · exact done
      · apply write_statuses node db middle write _ one retired
        rintro status rfl
        exact others status List.mem_cons_self

/-- The replies a round has its answers from, whether or not it has asked for
the time yet. -/
def Informed (config : ServiceConfig) (settings : Settings) (failures : Failures)
    (rows : List StorageNode) (replies : List Reply) : Prop :=
  ∃ thread, config.threads thread =
      .running (.checkNodeHealth settings failures) (recording settings failures rows replies) ∨
    ∃ time, config.threads thread =
      .running (.checkNodeHealth settings failures) (committing settings failures rows replies time)

/-- The operator only decommissions, and no probe of a node that was read
before calls for a change of its status: not one already answered when the
operator retires the node, and not one answered later. -/
def Heeded (config : ServiceConfig) : ServiceLabel → Prop
  | .env (.operator node status) => status = .decommissioned ∧
      ∀ settings failures rows replies, Informed config settings failures rows replies →
        Agrees settings failures rows replies node
  | .act thread (.await handles) replies => ∀ settings failures rows node,
      config.threads thread =
        .running (.checkNodeHealth settings failures) (waiting settings failures rows handles) →
      Retired node config.shared → Agrees settings failures rows replies node
  | _ => True

/-- A round whose answers agree with the node's status has none to write. -/
theorem agreed_writes (settings : Settings) (failures : Failures) (rows : List StorageNode)
    (replies : List Reply) (time : Nat) (node : Uuid) (distinct : (rows.map (·.id)).Nodup)
    (agreed : Agrees settings failures rows replies node) (status : NodeStatus) :
    .setStatus node status ∉ (probedAll settings.nodeFailureThreshold time failures
      (rows.zip (replies.map isHealthy))).2 := by
  intro written
  have kept := (Upkeep.zip_fst_sublist rows (replies.map isHealthy)).map (·.id)
  rw [List.map_map] at kept
  obtain ⟨pair, member, same, unsteady⟩ := probedAll_status settings time failures _
    (distinct.sublist kept) node status written
  exact unsteady (agreed pair member same)

theorem environment_retired (node : Uuid) (before after : Shared) (event : Event)
    (done : environment platform before event = some after)
    (operator : ∀ target status, event = .operator target status → status = .decommissioned)
    (retired : Retired node before) : Retired node after := by
  cases event with
  | tick seconds =>
      cases done
      exact retired
  | execute handle =>
      obtain ⟨flight, -, rfl⟩ := Option.map_eq_some_iff.mp done
      unfold Shared.execute
      split <;> exact retired
  | lose handle =>
      obtain ⟨flight, -, rfl⟩ := Option.map_eq_some_iff.mp done
      exact retired
  | misreply handle response =>
      obtain ⟨flight, -, rfl⟩ := Option.map_eq_some_iff.mp done
      exact retired
  | damage target shardId entry =>
      cases done
      exact retired
  | operator target status =>
      cases done
      obtain rfl := operator target status rfl
      constructor
      · obtain ⟨row, held, rfl⟩ := List.mem_map.mp retired.1
        refine List.mem_map.mpr ⟨_, List.mem_map_of_mem held, ?_⟩
        split <;> rfl
      · intro row member same
        obtain ⟨old, held, rfl⟩ := List.mem_map.mp member
        by_cases hit : old.id = target
        · simp [hit]
        · simp only [hit, if_false] at same ⊢
          exact retired.2 old held same
  | register row =>
      obtain ⟨unknown, same⟩ := Option.ite_none_right_eq_some.mp done
      cases same
      constructor
      · simp only [List.map_append]
        exact List.mem_append_left _ retired.1
      · intro other member same
        rcases List.mem_append.mp member with old | new
        · exact retired.2 other old same
        · obtain rfl := List.mem_singleton.mp new
          exact absurd (same ▸ retired.1) unknown

/-- Every thread but those in a round has no status to write, and no round has
one for this node. -/
theorem act_retired (node : Uuid) (before after : ServiceConfig) (label : ServiceLabel)
    (course : OnCourse platform
      (fun settings failures rows replies => Agrees settings failures rows replies node) before)
    (taken : Step (service platform) before label after)
    (operator : ∀ target status, label = .env (.operator target status) →
      status = .decommissioned)
    (retired : Retired node before.shared) : Retired node after.shared := by
  cases taken with
  | start _ _ => exact retired
  | fail _ => exact retired
  | finish _ => exact retired
  | env done =>
      exact environment_retired node _ _ _ done
        (fun target status same => operator target status (congrArg _ same)) retired
  | @act thread job request next answer shared at_op done =>
      cases request with
      | commit writes =>
          obtain ⟨db, committed, rfl⟩ := Option.map_eq_some_iff.mp done
          -- A round that stands before its commit agrees with what it has read.
          have others : ∀ status, .setStatus node status ∉ writes := by
            intro status
            rcases course thread job _ at_op with ⟨settings, failures, rfl, round⟩ | modest
            · generalize waits : Prog.op (Op.commit writes) next = rest at round
              cases round with
              | committing rows replies time distinct agreed =>
                  cases waits
                  exact agreed_writes settings failures rows replies time node distinct agreed
                    status
              | reading => cases waits
              | probing rows distinct => cases waits
              | waiting rows handles distinct => cases waits
              | recording rows replies distinct agreed => cases waits
              | done => cases waits
            · exact modest.1 node status
          constructor
          · exact (LifeCycle.commit_nodes writes committed).symm ▸ retired.1
          · exact commit_statuses node _ _ writes others committed retired.2
      | uuid4 =>
          obtain ⟨-, same⟩ := Option.ite_none_right_eq_some.mp done
          cases same
          exact retired
      | await handles =>
          obtain ⟨flights, -, rfl⟩ := Option.map_eq_some_iff.mp done
          exact retired
      | _ =>
          obtain ⟨-, same⟩ := Option.ite_none_right_eq_some.mp done
          cases same
          exact retired

theorem heeded_operator {config : ServiceConfig} {label : ServiceLabel}
    (heeded : Heeded config label) (target : Uuid) (status : NodeStatus)
    (same : label = .env (.operator target status)) : status = .decommissioned := by
  subst same
  exact heeded.1

theorem run_onCourse {clock : Nat} {labels : List ServiceLabel} {config : ServiceConfig}
    (run : Run (Step (service platform)) (deployed clock) labels config) :
    OnCourse platform (fun _ _ _ _ => True) config := by
  induction run with
  | refl => exact nofun
  | next ran taken ih =>
      have registered := (Guarantees.service_safe ran).inv.nodes_nodup
      exact onCourse_step _ _ _ _ registered ih taken fun _ _ _ _ _ _ _ _ => trivial

def retire (config : ServiceConfig) (node : Uuid) : ServiceConfig :=
  { config with shared := { config.shared with db := { config.shared.db with
    nodes := config.shared.db.nodes.map fun row =>
      if row.id = node then { row with status := .decommissioned } else row } } }

/-- Nobody but the operator ever brings a retired node back. -/
theorem decommission_lasts {clock : Nat} {first second : List ServiceLabel}
    {before after : ServiceConfig} {node : Uuid}
    (run : Run (Guarded Heeded (Step (service platform))) (deployed clock) first before)
    (registered : node ∈ before.shared.db.nodes.map (·.id))
    (rest : Run (Guarded Heeded (Step (service platform))) before
      (.env (.operator node .decommissioned) :: second) after) :
    Retired node after.shared := by
  obtain ⟨middle, ⟨operated, heeded⟩, later⟩ := run_uncons rest
  have reached := run_append (guarded_run run) (run_single operated)
  have start : OnCourse platform
      (fun settings failures rows replies => Agrees settings failures rows replies node) middle ∧
        Retired node middle.shared := by
    have course := run_onCourse (guarded_run run)
    cases operated with
    | env done =>
        cases done
        constructor
        · intro thread job program running
          rcases course thread job program running with ⟨settings, failures, rfl, round⟩ | modest
          · left
            refine ⟨settings, failures, rfl, ?_⟩
            cases round with
            | reading => exact .reading
            | probing rows distinct => exact .probing rows distinct
            | waiting rows handles distinct => exact .waiting rows handles distinct
            | recording rows replies distinct _ =>
                exact .recording rows replies distinct
                  (heeded.2 settings failures rows replies ⟨thread, Or.inl running⟩)
            | committing rows replies time distinct _ =>
                exact .committing rows replies time distinct
                  (heeded.2 settings failures rows replies ⟨thread, Or.inr ⟨time, running⟩⟩)
            | done => exact .done
          · exact Or.inr modest
        · constructor
          · obtain ⟨row, held, rfl⟩ := List.mem_map.mp registered
            refine List.mem_map.mpr ⟨_, List.mem_map_of_mem held, ?_⟩
            split <;> rfl
          · intro row member same
            obtain ⟨old, held, rfl⟩ := List.mem_map.mp member
            by_cases hit : old.id = node
            · simp [hit]
            · simp only [hit, if_false] at same
  -- From the update on: a round that read the node before agrees, a later one skips it.
  have kept : OnCourse platform
      (fun settings failures rows replies => Agrees settings failures rows replies node) after ∧
        Retired node after.shared := by
    clear rest
    induction later with
    | refl => exact start
    | @next between last labels label ran taken ih =>
        have here := run_append reached (guarded_run ran)
        have distinct := (Guarantees.service_safe here).inv.nodes_nodup
        constructor
        · apply onCourse_step _ _ _ _ distinct ih.1 taken.1
          rintro thread handles replies settings failures rows rfl running
          exact taken.2 settings failures rows node running ih.2
        · exact act_retired node _ _ label ih.1 taken.1 (heeded_operator taken.2) ih.2
  exact kept.2

/-- A node that answers and was read as anything but healthy is brought back. -/
theorem probedAll_revives (threshold time : Nat) (failures : Failures)
    (pairs : List (StorageNode × Bool)) (node : StorageNode) (answered : (node, true) ∈ pairs)
    (down : node.status ≠ .healthy) :
    .setStatus node.id .healthy ∈ (probedAll threshold time failures pairs).2 := by
  induction pairs generalizing failures with
  | nil => cases answered
  | cons first rest ih =>
      rcases List.mem_cons.mp answered with rfl | later
      · simp [probedAll, probed, down]
      · exact List.mem_append_right _ (ih _ later)

theorem agrees_unwritten {settings : Settings} {failures : Failures} {rows : List StorageNode}
    {replies : List Reply} {node : Uuid} (time : Nat)
    (few : ∀ id, failures id + 1 < settings.nodeFailureThreshold)
    (unwritten : .setStatus node .healthy ∉ (probedAll settings.nodeFailureThreshold time failures
      (rows.zip (replies.map isHealthy))).2) :
    Agrees settings failures rows replies node := by
  rintro ⟨row, healthy⟩ member rfl
  unfold Steady
  cases healthy with
  | true =>
      by_contra down
      exact unwritten (probedAll_revives _ time failures _ row member down)
  | false => exact fun reached => absurd (few row.id) (Nat.not_lt.mpr reached.2)

theorem recording_writes {settings : Settings} {failures : Failures} {rows rows' : List StorageNode}
    {replies replies' : List Reply} (time : Nat)
    (same : recording settings failures rows replies = recording settings failures rows' replies') :
    (probedAll settings.nodeFailureThreshold time failures (rows.zip (replies.map isHealthy))).2 =
      (probedAll settings.nodeFailureThreshold time failures
        (rows'.zip (replies'.map isHealthy))).2 := by
  injection same with _ next
  have committed := congrFun next time
  injection committed with written
  exact Op.commit.inj written

def bothNodes : List StorageNode := [healthyNode 1, healthyNode 2]

def bothUp : List Reply := [some (answer 200), some (answer 200)]

theorem bothUp_agrees {settings : Settings} {failures : Failures} {rows : List StorageNode}
    {replies : List Reply} (node : Uuid)
    (job : Job.checkNodeHealth smallSettings (fun _ => 0) = .checkNodeHealth settings failures)
    (rest : recording smallSettings (fun _ => 0) bothNodes bothUp =
      recording settings failures rows replies) : Agrees settings failures rows replies node := by
  injection job with sameSettings sameFailures
  subst sameSettings sameFailures
  apply agrees_unwritten 0 fun _ => by decide
  rw [← recording_writes 0 rest]
  have written : (probedAll smallSettings.nodeFailureThreshold 0 (fun _ => 0)
    (bothNodes.zip (bothUp.map isHealthy))).2 = [.setLastSeen 1 0, .setLastSeen 2 0] := rfl
  simp [written]

/-- The round has read both nodes, the operator retires the second, and the
probes of both are answered. -/
theorem round_spans : ∃ before,
    Run (Guarded Heeded (Step (service plain))) (deployed 0)
      [.env (.register (healthyNode 1)), .env (.register (healthyNode 2)),
        .start .worker (.checkNodeHealth smallSettings fun _ => 0),
        .act .worker (.selectNodes fun node => node.status ≠ .decommissioned) bothNodes,
        .act .worker (.send [(1, .healthz), (2, .healthz)]) [0, 1],
        .env (.operator 2 .decommissioned), .env (.execute 0), .env (.execute 1),
        .act .worker (.await [0, 1]) bothUp] before ∧
      before.threads .worker = .running (.checkNodeHealth smallSettings fun _ => 0)
        (recording smallSettings (fun _ => 0) bothNodes bothUp) ∧
      (∀ request, before.threads (.api request) = .fresh) ∧
      before.shared.clock = 0 ∧
      before.shared.db =
        ⟨[], [], [healthyNode 1, { healthyNode 2 with status := .decommissioned }], []⟩ := by
  refine ⟨_, run_cons ⟨.env rfl, trivial⟩ <| run_cons ⟨.env rfl, trivial⟩ <|
    run_cons ⟨.start trivial rfl, trivial⟩ <| run_cons ⟨.act rfl rfl, trivial⟩ <|
    run_cons ⟨.act rfl rfl, trivial⟩ <| run_cons ⟨.env rfl, ?operated⟩ <|
    run_cons ⟨.env rfl, trivial⟩ <| run_cons ⟨.env rfl, trivial⟩ <|
    run_single ⟨.act rfl rfl, ?heard⟩, ?_⟩
  case operated =>
    refine ⟨rfl, ?_⟩
    rintro settings failures rows replies ⟨thread, stands⟩
    cases thread with
    | worker => rcases stands with stands | ⟨time, stands⟩ <;> cases stands
    | api request => rcases stands with stands | ⟨time, stands⟩ <;> cases stands
  case heard =>
    intro settings failures rows node stands _
    injection stands with job rest
    injection rest with _ next
    exact bothUp_agrees node job (congrFun next bothUp)
  · exact ⟨rfl, fun _ => rfl, rfl, rfl⟩

/-- The round commits what it has heard of the first node after the operator has
retired that one, too: it is seen once more, and stays retired. -/
theorem decommission_lasts_small : ∃ first before second after,
    Run (Guarded Heeded (Step (service plain))) (deployed 0) first before ∧
      before.threads .worker = .running (.checkNodeHealth smallSettings fun _ => 0)
        (recording smallSettings (fun _ => 0) bothNodes bothUp) ∧
      Run (Guarded Heeded (Step (service plain))) before
        (.env (.operator 1 .decommissioned) :: second) after ∧
      second = [.act .worker .now 0, .act .worker (.commit [.setLastSeen 1 0, .setLastSeen 2 0]) (),
        .finish .worker (.checkNodeHealth smallSettings fun _ => 0) (.returned 0)] ∧
      Retired 1 after.shared := by
  obtain ⟨before, spans, stands, idle, clock, tables⟩ := round_spans
  have registered : 1 ∈ before.shared.db.nodes.map (·.id) := by
    rw [tables]
    decide
  have heeded : Heeded before (.env (.operator 1 .decommissioned)) := by
    refine ⟨rfl, ?_⟩
    rintro settings failures rows replies ⟨thread, here⟩
    cases thread with
    | api request => simp [idle] at here
    | worker =>
        rw [stands] at here
        rcases here with same | ⟨time, same⟩
        · injection same with job rest
          exact bothUp_agrees 1 job rest
        · cases same
  have commits : ∃ after, Run (Guarded Heeded (Step (service plain))) before
      [.env (.operator 1 .decommissioned), .act .worker .now 0,
        .act .worker (.commit [.setLastSeen 1 0, .setLastSeen 2 0]) (),
        .finish .worker (.checkNodeHealth smallSettings fun _ => 0) (.returned 0)] after := by
    obtain ⟨⟨_, db, _, _, _, _⟩, threads⟩ := before
    dsimp only at stands clock tables
    subst clock tables
    exact ⟨_, run_cons ⟨.env rfl, heeded⟩ <| run_cons ⟨.act stands rfl, trivial⟩ <|
      run_cons ⟨.act rfl rfl, trivial⟩ <| run_single ⟨.finish rfl, trivial⟩⟩
  obtain ⟨after, rest⟩ := commits
  exact ⟨_, before, _, after, spans, stands, rest, rfl, decommission_lasts spans registered rest⟩

/-- The worker marks a node unreachable, and probes it once more, up to the
commit of the second round. -/
def revival : List ServiceMove :=
  [.env (.register (healthyNode 1)),
    .start .worker (.checkNodeHealth { smallSettings with nodeFailureThreshold := 1 } fun _ => 0)] ++
  prompts .worker 2 ++ [.env (.lose 0)] ++ prompts .worker 3 ++
  [.finish .worker,
    .start .worker (.checkNodeHealth { smallSettings with nodeFailureThreshold := 1 } fun _ => 1)] ++
  prompts .worker 2 ++ delivers [1] ++ prompts .worker 2

def decommissions : ServiceLabel → Bool
  | .env (.operator _ status) => decide (status = .decommissioned)
  | _ => true

def revived (config : ServiceConfig) : Bool :=
  config.shared.db.nodes.any fun row => decide (row.id = 1 ∧ row.status = .healthy)

def revives (config : ServiceConfig) : Bool :=
  decide (1 ∈ config.shared.db.nodes.map (·.id)) &&
    (drive (service plain) (fun _ label => decommissions label) (retire config 1)
      (prompts .worker 1)).any fun driven => revived driven.2

/-- The second round read the node as unreachable and found it healthy; its
commit undoes the retirement made in between. -/
theorem decommission_undone : ∃ first before second after,
    Run (Guarded (fun _ label => decommissions label = true) (Step (service plain))) (deployed 0)
        first before ∧
      1 ∈ before.shared.db.nodes.map (·.id) ∧
      Run (Guarded (fun _ label => decommissions label = true) (Step (service plain))) before
        (.env (.operator 1 .decommissioned) :: second) after ∧
      ¬ Retired 1 after.shared := by
  obtain ⟨first, before, run, passed⟩ := drive_guarded (service plain)
    (fun _ label => decommissions label) (deployed 0) revival (fun _ config => revives config)
    (by decide +kernel)
  rw [revives, Bool.and_eq_true] at passed
  obtain ⟨second, after, rest, checked⟩ := drive_guarded (service plain)
    (fun _ label => decommissions label) (retire before 1) (prompts .worker 1)
    (fun _ config => revived config) passed.2
  have operates : Guarded (fun _ label => decommissions label = true) (Step (service plain)) before
      (.env (.operator 1 .decommissioned)) (retire before 1) := ⟨.env rfl, rfl⟩
  refine ⟨first, before, second, after, run, of_decide_eq_true passed.1, run_cons operates rest, ?_⟩
  intro retired
  obtain ⟨row, member, healthy⟩ := List.any_eq_true.mp checked
  obtain ⟨same, up⟩ := of_decide_eq_true healthy
  rw [retired.2 row member same] at up
  cases up

end SecureFileSystem.Decommission
