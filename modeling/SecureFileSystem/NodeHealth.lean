import SecureFileSystem.Attribution
import SecureFileSystem.Exchanges

/-!
`check_node_health` over any number of rounds of one worker process. What a
node's row says after each round depends on that node's probes alone: the time
of the last one answered, and how many have failed since.
-/

namespace SecureFileSystem.NodeHealth

open Base Database Fleet Session Execution Exchanges SecureFileSystem.Configuration Maintenance
  Program

/-- A round: when it judged, and what it sent to which node, with the replies. -/
structure Round where
  time : Nat
  asked : List Exchange

/-- What came back of the round's own probes of this node. -/
def Round.probes (round : Round) (node : Uuid) : List (Option Reply) :=
  round.asked.filterMap fun exchange =>
    if exchange.node = node ∧ exchange.request = .healthz then some exchange.reply else none

def up : Option Reply → Bool
  | some (some response) => response.status = 200
  | _ => false

def timeTold : List (Answered Res) → Nat
  | [] => 0
  | ⟨.now, time⟩ :: _ => time
  | _ :: rest => timeTold rest

def roundOf (answers : List (Answered Res)) : Round := ⟨timeTold answers, exchanges answers⟩

/-- The rows of the nodes stay; anything else may change, and nodes may be registered. -/
structure Undisturbed (before after : Shared) : Prop where
  kept : before.db.nodes <+: after.db.nodes
  distinct : (after.db.nodes.map (·.id)).Nodup

/-- The rounds of one process, from its start on, with its counters. -/
inductive Rounds (settings : Settings) (before : Shared) :
    List Round → Failures → Shared → Prop
  | started : Rounds settings before [] (fun _ => 0) before
  /-- the worker's other jobs, and all else that goes on -/
  | between {rounds : List Round} {failures : Failures} {middle after : Shared}
      (earlier : Rounds settings before rounds failures middle)
      (moved : Undisturbed middle after) : Rounds settings before rounds failures after
  | next {rounds : List Round} {failures counted : Failures} {middle after : Shared}
      {answers : List (Answered Res)} (earlier : Rounds settings before rounds failures middle)
      (round : Executes (exec .worker) Undisturbed (checkNodeHealth settings failures) middle
        answers counted after) :
      Rounds settings before (rounds ++ [roundOf answers]) counted after

/-- The probes of one node: when, and whether it answered. -/
def history (rounds : List Round) (node : Uuid) : List (Nat × Bool) :=
  rounds.flatMap fun round => (round.probes node).map fun reply => (round.time, up reply)

def lastAnswer (probes : List (Nat × Bool)) : Option Nat :=
  ((probes.filter (·.2)).getLast?).map (·.1)

def failedSince (probes : List (Nat × Bool)) : Nat :=
  (probes.reverse.takeWhile fun probe => !probe.2).length

structure Verdict (threshold : Nat) (initial : StorageNode) (probes : List (Nat × Bool))
    (row : StorageNode) : Prop where
  known : row.status = .healthy ∨ row.status = .unreachable
  answered : ∀ time, lastAnswer probes = some time →
    row.lastSeenAt = some time ∧ (row.status = .healthy ↔ failedSince probes < threshold)
  silent : lastAnswer probes = none →
    row.lastSeenAt = initial.lastSeenAt ∧
      (initial.status = .unreachable → row.status = .unreachable) ∧
      (initial.status ≠ .unreachable → (row.status = .unreachable ↔ threshold ≤ probes.length))

def judged (threshold time count : Nat) (row : StorageNode) (healthy : Bool) : StorageNode :=
  if healthy then { row with lastSeenAt := some time, status := .healthy }
  else if row.status = .healthy ∧ threshold ≤ count + 1 then { row with status := .unreachable }
  else row

def countedNext (count : Nat) (healthy : Bool) : Nat := if healthy then 0 else count + 1

@[simp] theorem judged_id (threshold time count : Nat) (row : StorageNode) (healthy : Bool) :
    (judged threshold time count row healthy).id = row.id := by
  unfold judged
  split
  · rfl
  · split <;> rfl

theorem lastAnswer_true (probes : List (Nat × Bool)) (time : Nat) :
    lastAnswer (probes ++ [(time, true)]) = some time := by
  simp [lastAnswer]

theorem lastAnswer_false (probes : List (Nat × Bool)) (time : Nat) :
    lastAnswer (probes ++ [(time, false)]) = lastAnswer probes := by
  simp [lastAnswer]

theorem failedSince_true (probes : List (Nat × Bool)) (time : Nat) :
    failedSince (probes ++ [(time, true)]) = 0 := by
  simp [failedSince]

theorem failedSince_false (probes : List (Nat × Bool)) (time : Nat) :
    failedSince (probes ++ [(time, false)]) = failedSince probes + 1 := by
  simp [failedSince]

theorem failedSince_silent {probes : List (Nat × Bool)} (silent : lastAnswer probes = none) :
    failedSince probes = probes.length := by
  have never : ∀ probe ∈ probes, probe.2 = false := by
    intro probe member
    rw [lastAnswer, Option.map_eq_none_iff, List.getLast?_eq_none_iff, List.filter_eq_nil_iff]
      at silent
    simpa using silent probe member
  unfold failedSince
  rw [List.takeWhile_eq_self_iff.mpr, List.length_reverse]
  intro probe member
  simp [never probe (List.mem_reverse.mp member)]

theorem verdict_start (threshold : Nat) (positive : 1 ≤ threshold) (initial : StorageNode)
    (live : initial.status ≠ .decommissioned) : Verdict threshold initial [] initial := by
  constructor
  · cases status : initial.status with
    | healthy => exact .inl rfl
    | unreachable => exact .inr rfl
    | decommissioned => exact absurd status live
  · intro time never
    cases never
  · intro _
    refine ⟨rfl, id, ?_⟩
    intro up
    constructor
    · intro down
      exact absurd down up
    · intro reached
      exact absurd reached (Nat.not_le_of_lt positive)

/-- One more probe of a node whose row says what it should. -/
theorem verdict_next {threshold : Nat} (positive : 1 ≤ threshold) {initial row : StorageNode}
    {probes : List (Nat × Bool)} (verdict : Verdict threshold initial probes row) (time : Nat)
    (healthy : Bool) :
    Verdict threshold initial (probes ++ [(time, healthy)])
      (judged threshold time (failedSince probes) row healthy) := by
  cases healthy with
  | true =>
      constructor
      · exact .inl rfl
      · intro last answered
        rw [lastAnswer_true] at answered
        cases answered
        rw [failedSince_true]
        exact ⟨rfl, fun _ => positive, fun _ => rfl⟩
      · intro silent
        rw [lastAnswer_true] at silent
        cases silent
  | false =>
      have seen : (judged threshold time (failedSince probes) row false).lastSeenAt =
          row.lastSeenAt := by
        unfold judged
        split
        · contradiction
        · split <;> rfl
      -- A failure brings no node up, and takes it down when it is the T-th since an answer.
      have up : (judged threshold time (failedSince probes) row false).status = .healthy ↔
          row.status = .healthy ∧ failedSince probes + 1 < threshold := by
        by_cases falls : row.status = .healthy ∧ threshold ≤ failedSince probes + 1
        · simp [judged, falls]
        · simp only [judged, falls, if_false, Bool.false_eq_true]
          constructor
          · intro healthy
            exact ⟨healthy, Nat.lt_of_not_le fun reached => falls ⟨healthy, reached⟩⟩
          · exact And.left
      have down : (judged threshold time (failedSince probes) row false).status = .unreachable ↔
          row.status = .unreachable ∨
            (row.status = .healthy ∧ threshold ≤ failedSince probes + 1) := by
        by_cases falls : row.status = .healthy ∧ threshold ≤ failedSince probes + 1
        · simp [judged, falls]
        · simp [judged, falls]
      constructor
      · rw [up, down]
        rcases verdict.known with was | was
        · by_cases reached : threshold ≤ failedSince probes + 1
          · exact .inr (.inr ⟨was, reached⟩)
          · exact .inl ⟨was, Nat.lt_of_not_le reached⟩
        · exact .inr (.inl was)
      · intro last answered
        rw [lastAnswer_false] at answered
        obtain ⟨stamp, was⟩ := verdict.answered last answered
        rw [failedSince_false, seen, up]
        refine ⟨stamp, And.right, fun below => ⟨was.mpr ?_, below⟩⟩
        exact Nat.lt_of_succ_lt below
      · intro silent
        rw [lastAnswer_false] at silent
        obtain ⟨stamp, stays, falls⟩ := verdict.silent silent
        rw [seen, List.length_append, List.length_singleton, down, failedSince_silent silent]
        refine ⟨stamp, fun was => .inl (stays was), fun initially => ?_⟩
        constructor
        · rintro (was | ⟨_, reached⟩)
          · exact Nat.le_succ_of_le ((falls initially).mp was)
          · exact reached
        · intro reached
          rcases verdict.known with was | was
          · exact .inr ⟨was, reached⟩
          · exact .inl was

def written (row : StorageNode) : Write → StorageNode
  | .setLastSeen node seen => if row.id = node then { row with lastSeenAt := some seen } else row
  | .setStatus node status => if row.id = node then { row with status := status } else row
  | _ => row

def rewritten (writes : List Write) (row : StorageNode) : StorageNode := writes.foldl written row

theorem rewritten_append (front rest : List Write) (row : StorageNode) :
    rewritten (front ++ rest) row = rewritten rest (rewritten front row) := List.foldl_append

theorem write_written {db after : Db} (write : Write) (done : db.write write = some after) :
    after.nodes = db.nodes.map fun row => written row write := by
  cases write with
  | setLastSeen node seen =>
      cases done
      rfl
  | setStatus node status =>
      cases done
      rfl
  | deleteFile _ =>
      cases done
      exact (List.map_id _).symm
  | deleteShards _ =>
      cases done
      exact (List.map_id _).symm
  | _ =>
      simp only [Db.write, Option.ite_none_right_eq_some, Option.some.injEq] at done
      obtain ⟨-, rfl⟩ := done
      exact (List.map_id _).symm

theorem commit_rewritten {db after : Db} (writes : List Write)
    (done : db.commit writes = some after) : after.nodes = db.nodes.map (rewritten writes) := by
  induction writes generalizing db with
  | nil =>
      cases done
      exact (List.map_id _).symm
  | cons write rest ih =>
      obtain ⟨middle, one, done⟩ := Option.bind_eq_some_iff.mp done
      rw [ih done, write_written write one, List.map_map]
      rfl

theorem probed_other (threshold time : Nat) (failures : Failures) (node row : StorageNode)
    (healthy : Bool) (apart : row.id ≠ node.id) :
    rewritten (probed threshold time failures node healthy).2 row = row ∧
      (probed threshold time failures node healthy).1 row.id = failures row.id := by
  unfold probed
  cases healthy with
  | true =>
      constructor
      · by_cases up : node.status = .healthy
        · simp [rewritten, written, up, apart]
        · simp [rewritten, written, up, apart]
      · exact Function.update_of_ne apart _ _
  | false =>
      constructor
      · by_cases falls : node.status = .healthy ∧ threshold ≤ failures node.id + 1
        · simp [rewritten, written, falls, apart]
        · simp [rewritten, falls]
      · exact Function.update_of_ne apart _ _

theorem probed_own (threshold time : Nat) (failures : Failures) (row : StorageNode)
    (healthy : Bool) :
    rewritten (probed threshold time failures row healthy).2 row =
        judged threshold time (failures row.id) row healthy ∧
      (probed threshold time failures row healthy).1 row.id =
        countedNext (failures row.id) healthy := by
  unfold probed judged countedNext
  cases healthy with
  | true =>
      constructor
      · by_cases up : row.status = .healthy
        · simp [rewritten, written, up]
        · simp [rewritten, written, up]
      · exact Function.update_self _ _ _
  | false =>
      constructor
      · by_cases falls : row.status = .healthy ∧ threshold ≤ failures row.id + 1
        · simp [rewritten, written, falls]
        · simp [rewritten, falls]
      · exact Function.update_self _ _ _

theorem probedAll_other (threshold time : Nat) (failures : Failures)
    (probes : List (StorageNode × Bool)) (row : StorageNode)
    (apart : row.id ∉ probes.map (·.1.id)) :
    rewritten (probedAll threshold time failures probes).2 row = row ∧
      (probedAll threshold time failures probes).1 row.id = failures row.id := by
  induction probes generalizing failures with
  | nil => exact ⟨rfl, rfl⟩
  | cons probe rest ih =>
      obtain ⟨node, healthy⟩ := probe
      rw [List.map_cons, List.mem_cons, not_or] at apart
      obtain ⟨same, count⟩ := probed_other threshold time failures node row healthy apart.1
      obtain ⟨still, counts⟩ := ih (probed threshold time failures node healthy).1 apart.2
      constructor
      · change rewritten (_ ++ _) row = row
        rw [rewritten_append, same, still]
      · exact counts.trans count

/-- A round makes of a row what the loop body makes of it. -/
theorem probedAll_own (threshold time : Nat) (failures : Failures)
    (probes : List (StorageNode × Bool)) (distinct : (probes.map (·.1.id)).Nodup)
    (row : StorageNode) (healthy : Bool) (member : (row, healthy) ∈ probes) :
    rewritten (probedAll threshold time failures probes).2 row =
        judged threshold time (failures row.id) row healthy ∧
      (probedAll threshold time failures probes).1 row.id =
        countedNext (failures row.id) healthy := by
  induction probes generalizing failures with
  | nil => cases member
  | cons probe rest ih =>
      obtain ⟨node, answered⟩ := probe
      rw [List.map_cons, List.nodup_cons] at distinct
      rcases List.mem_cons.mp member with here | later
      · cases here
        obtain ⟨own, count⟩ := probed_own threshold time failures row healthy
        have apart : (judged threshold time (failures row.id) row healthy).id ∉
            rest.map (·.1.id) := by
          rw [judged_id]
          exact distinct.1
        obtain ⟨still, counts⟩ := probedAll_other threshold time
          (probed threshold time failures row healthy).1 rest _ apart
        constructor
        · change rewritten (_ ++ _) row = _
          rw [rewritten_append, own, still]
        · rw [judged_id] at counts
          exact counts.trans count
      · have apart : row.id ≠ node.id := fun same =>
          distinct.1 (List.mem_map.mpr ⟨(row, healthy), later, same⟩)
        obtain ⟨same, count⟩ := probed_other threshold time failures node row answered apart
        obtain ⟨own, counts⟩ := ih (probed threshold time failures node answered).1 distinct.2 later
        rw [count] at own counts
        constructor
        · change rewritten (_ ++ _) row = _
          rw [rewritten_append, same, own]
        · exact counts

theorem undisturbed_trans {before after : Shared} (distinct : (before.db.nodes.map (·.id)).Nodup)
    (moves : Relation.ReflTransGen Undisturbed before after) : Undisturbed before after := by
  induction moves with
  | refl => exact ⟨List.prefix_rfl, distinct⟩
  | tail _ last ih => exact ⟨ih.kept.trans last.kept, last.distinct⟩

theorem undisturbed_from {read before middle after : Shared} (rows : Undisturbed read before)
    (moves : Relation.ReflTransGen Undisturbed middle after) (same : middle.db = before.db) :
    Undisturbed read after := by
  obtain ⟨kept, distinct⟩ := rows
  rw [← same] at kept distinct
  have further := undisturbed_trans distinct moves
  exact ⟨kept.trans further.kept, further.distinct⟩

def probe (pair : StorageNode × Reply) : Exchange := exchanged (pair.1.id, .healthz) pair.2

def judgement (pair : StorageNode × Reply) : StorageNode × Bool := (pair.1, isHealthy pair.2)

/-- What a round comes down to: the rows it read, each with the reply to its own
probe, and one transaction. -/
theorem round_parts {settings : Settings} {failures counted : Failures} {before after : Shared}
    {answers : List (Answered Res)} (distinct : (before.db.nodes.map (·.id)).Nodup)
    (round : Executes (exec .worker) Undisturbed (checkNodeHealth settings failures) before answers
      counted after) :
    ∃ (read : Shared) (committed : Shared) (db : Db) (pairs : List (StorageNode × Reply)),
      Undisturbed before read ∧
        (pairs.map (·.1)).Perm (read.db.nodes.filter (·.status ≠ .decommissioned)) ∧
        (roundOf answers).asked = pairs.map probe ∧
        Undisturbed read committed ∧
        committed.db.commit (probedAll settings.nodeFailureThreshold (roundOf answers).time failures
          (pairs.map judgement)).2 = some db ∧
        counted = (probedAll settings.nodeFailureThreshold (roundOf answers).time failures
          (pairs.map judgement)).1 ∧
        db.nodes <+: after.db.nodes ∧ (after.db.nodes.map (·.id)).Nodup := by
  -- The five requests of a round, and what may have moved before each.
  obtain ⟨read, rows, _, _, moved, selected, round, rfl⟩ := executes_op round
  obtain ⟨perm, same⟩ := Option.ite_none_right_eq_some.mp selected
  cases same
  have readRows := undisturbed_trans distinct moved
  obtain ⟨sending, handles, _, _, toSend, sent, round, rfl⟩ := executes_op round
  obtain ⟨numbered, same⟩ := Option.ite_none_right_eq_some.mp sent
  cases same
  have sendRows := undisturbed_trans readRows.distinct toSend
  obtain ⟨hearing, replies, _, _, toHear, heard, round, rfl⟩ := executes_op round
  obtain ⟨flights, told, rfl⟩ := Option.map_eq_some_iff.mp heard
  have hearRows := undisturbed_from sendRows toHear rfl
  obtain ⟨timing, time, _, _, toTime, timed, round, rfl⟩ := executes_op round
  obtain ⟨_, same⟩ := Option.ite_none_right_eq_some.mp timed
  cases same
  have timeRows := undisturbed_from hearRows toTime rfl
  obtain ⟨committing, _, _, _, toCommit, committed, round, rfl⟩ := executes_op round
  obtain ⟨db, done, rfl⟩ := Option.map_eq_some_iff.mp committed
  have commitRows := undisturbed_from timeRows toCommit rfl
  obtain ⟨rfl, rfl, rest⟩ := executes_ret round
  have count : replies.length = rows.length := by
    rw [(Wire.awaitReplies_heard told).1, numbered, List.length_range', List.length_map]
  have dbDistinct : (db.nodes.map (·.id)).Nodup := by
    rw [LifeCycle.commit_nodes _ done]
    exact commitRows.distinct
  have restRows := undisturbed_trans dbDistinct rest
  have judged : rows.zip (replies.map isHealthy) = (rows.zip replies).map judgement :=
    List.zip_map_right
  refine ⟨read, committing, db, rows.zip replies, readRows, ?_, ?_, commitRows, judged ▸ done,
    judged ▸ rfl, restRows.kept, restRows.distinct⟩
  · rw [List.map_fst_zip (le_of_eq count.symm)]
    exact perm
  · refine (exchanges_gathered (numbered ▸ List.nodup_range') (numbered ▸ List.length_range')
      (count.trans (List.length_map _).symm) [⟨.now, time⟩, ⟨.commit _, ()⟩]).trans ?_
    rw [List.zipWith_map_left, List.map_zip_eq_zipWith]
    exact List.append_nil _

theorem probes_row (time : Nat) {pairs : List (StorageNode × Reply)}
    (distinct : (pairs.map (·.1.id)).Nodup) {pair : StorageNode × Reply} (member : pair ∈ pairs) :
    Round.probes ⟨time, pairs.map probe⟩ pair.1.id = [some pair.2] := by
  induction pairs with
  | nil => cases member
  | cons first rest ih =>
      rw [List.map_cons, List.nodup_cons] at distinct
      unfold Round.probes at ih ⊢
      dsimp only at ih ⊢
      rcases List.mem_cons.mp member with rfl | later
      · have others : (rest.map probe).filterMap (fun exchange =>
            if exchange.node = pair.1.id ∧ exchange.request = .healthz then some exchange.reply
            else none) = [] := by
          refine List.filterMap_eq_nil_iff.mpr fun exchange among => ?_
          obtain ⟨other, inside, rfl⟩ := List.mem_map.mp among
          refine if_neg fun same => distinct.1 ?_
          exact List.mem_map.mpr ⟨other, inside, same.1⟩
        rw [List.map_cons, List.filterMap_cons, others]
        simp [probe, exchanged]
      · have apart : first.1.id ≠ pair.1.id := fun same =>
          distinct.1 (List.mem_map.mpr ⟨pair, later, same.symm⟩)
        rw [List.map_cons, List.filterMap_cons, ih distinct.2 later]
        simp [probe, exchanged, apart]

/-- A round as seen from one row: sent nothing when retired, otherwise probed
once and judged by its own reply. -/
theorem round_row {settings : Settings} {failures counted : Failures} {before after : Shared}
    {answers : List (Answered Res)} (distinct : (before.db.nodes.map (·.id)).Nodup)
    (round : Executes (exec .worker) Undisturbed (checkNodeHealth settings failures) before answers
      counted after) :
    (after.db.nodes.map (·.id)).Nodup ∧ ∀ row ∈ before.db.nodes,
      (row.status = .decommissioned ∧ (∀ exchange ∈ (roundOf answers).asked,
        exchange.node ≠ row.id) ∧ row ∈ after.db.nodes) ∨
      (row.status ≠ .decommissioned ∧ ∃ reply, (roundOf answers).probes row.id = [some reply] ∧
        judged settings.nodeFailureThreshold (roundOf answers).time (failures row.id) row
          (up (some reply)) ∈ after.db.nodes ∧
        counted row.id = countedNext (failures row.id) (up (some reply))) := by
  obtain ⟨read, committed, db, pairs, readRows, perm, asked, commitRows, done, rfl, kept,
    afterDistinct⟩ := round_parts distinct round
  refine ⟨afterDistinct, ?_⟩
  intro row member
  have here := readRows.kept.subset member
  -- Each node that is read is probed once.
  have pairsDistinct : (pairs.map (·.1.id)).Nodup := by
    rw [show (fun pair : StorageNode × Reply => pair.1.id) = (·.id) ∘ Prod.fst from rfl,
      ← List.map_map]
    exact (perm.map _).nodup_iff.mpr (readRows.distinct.sublist (List.filter_sublist.map _))
  have same : ∀ pair ∈ pairs, pair.1.id = row.id → pair.1 = row := by
    intro pair probed equal
    have inside := (List.mem_filter.mp (perm.mem_iff.mp (List.mem_map_of_mem probed))).1
    exact List.inj_on_of_nodup_map readRows.distinct inside here equal
  have nodes := commit_rewritten _ done
  have result : rewritten (probedAll settings.nodeFailureThreshold (roundOf answers).time failures
      (pairs.map judgement)).2 row ∈ after.db.nodes := by
    apply kept.subset
    rw [nodes]
    exact List.mem_map_of_mem (commitRows.kept.subset here)
  by_cases retired : row.status = .decommissioned
  · left
    -- A retired node is not among the rows that the round reads.
    have apart : ∀ pair ∈ pairs, pair.1.id ≠ row.id := by
      intro pair probed equal
      have live := (List.mem_filter.mp (perm.mem_iff.mp (List.mem_map_of_mem probed))).2
      rw [same pair probed equal, decide_eq_true_eq] at live
      exact live retired
    refine ⟨retired, ?_, ?_⟩
    · intro exchange among
      rw [asked] at among
      obtain ⟨pair, probed, rfl⟩ := List.mem_map.mp among
      exact apart pair probed
    · have unjudged : row.id ∉ (pairs.map judgement).map (·.1.id) := by
        intro judged
        obtain ⟨_, among, equal⟩ := List.mem_map.mp judged
        obtain ⟨pair, probed, rfl⟩ := List.mem_map.mp among
        exact apart pair probed equal
      rw [(probedAll_other _ _ _ _ row unjudged).1] at result
      exact result
  · right
    have read_row : row ∈ pairs.map (·.1) :=
      perm.mem_iff.mpr (List.mem_filter.mpr ⟨here, decide_eq_true retired⟩)
    obtain ⟨⟨row, reply⟩, found, rfl⟩ := List.mem_map.mp read_row
    have judgedDistinct : ((pairs.map judgement).map (·.1.id)).Nodup := by
      rw [List.map_map]
      exact pairsDistinct
    obtain ⟨own, counts⟩ := probedAll_own settings.nodeFailureThreshold (roundOf answers).time
      failures _ judgedDistinct _ (isHealthy reply) (List.mem_map_of_mem found)
    have healthy : isHealthy reply = up (some reply) := by cases reply <;> rfl
    rw [healthy] at own counts
    have probed : (roundOf answers).probes row.id = [some reply] := by
      have alone := probes_row (roundOf answers).time pairsDistinct found
      rw [← asked] at alone
      exact alone
    exact ⟨retired, reply, probed, own ▸ result, counts⟩

theorem history_append (rounds : List Round) (round : Round) (node : Uuid) :
    history (rounds ++ [round]) node = history rounds node ++
      (round.probes node).map fun reply => (round.time, up reply) := by
  simp [history]

structure Standing (threshold : Nat) (initial : StorageNode) (rounds : List Round)
    (failures : Failures) (row : StorageNode) : Prop where
  id : row.id = initial.id
  probed : ∀ round ∈ rounds, ∃ reply, round.probes initial.id = [some reply]
  count : failures initial.id = failedSince (history rounds initial.id)
  verdict : Verdict threshold initial (history rounds initial.id) row

theorem verdict_live {threshold : Nat} {initial row : StorageNode} {probes : List (Nat × Bool)}
    (verdict : Verdict threshold initial probes row) : row.status ≠ .decommissioned := by
  rcases verdict.known with up | down
  · rw [up]
    decide
  · rw [down]
    decide

theorem rounds_rows {settings : Settings} (positive : 1 ≤ settings.nodeFailureThreshold)
    {before after : Shared} {rounds : List Round} {failures : Failures}
    (distinct : (before.db.nodes.map (·.id)).Nodup)
    (run : Rounds settings before rounds failures after) :
    (after.db.nodes.map (·.id)).Nodup ∧ ∀ initial ∈ before.db.nodes,
      (initial.status = .decommissioned → initial ∈ after.db.nodes ∧
        ∀ round ∈ rounds, ∀ exchange ∈ round.asked, exchange.node ≠ initial.id) ∧
      (initial.status ≠ .decommissioned → ∃ row ∈ after.db.nodes,
        Standing settings.nodeFailureThreshold initial rounds failures row) := by
  induction run with
  | started =>
      refine ⟨distinct, fun initial member => ⟨fun _ => ⟨member, nofun⟩, fun live => ?_⟩⟩
      exact ⟨initial, member, rfl, nofun, rfl, verdict_start _ positive initial live⟩
  | between earlier moved ih =>
      refine ⟨moved.distinct, fun initial member => ⟨fun retired => ?_, fun live => ?_⟩⟩
      · obtain ⟨kept, unprobed⟩ := (ih.2 initial member).1 retired
        exact ⟨moved.kept.subset kept, unprobed⟩
      · obtain ⟨row, kept, standing⟩ := (ih.2 initial member).2 live
        exact ⟨row, moved.kept.subset kept, standing⟩
  | @next rounds failures counted middle after answers earlier round ih =>
      obtain ⟨middleDistinct, stands⟩ := ih
      obtain ⟨afterDistinct, rows⟩ := round_row middleDistinct round
      refine ⟨afterDistinct, fun initial member => ⟨fun retired => ?_, fun live => ?_⟩⟩
      · obtain ⟨kept, unprobed⟩ := (stands initial member).1 retired
        rcases rows initial kept with ⟨_, missed, still⟩ | ⟨live, _⟩
        · refine ⟨still, ?_⟩
          intro one among
          rcases List.mem_append.mp among with old | new
          · exact unprobed one old
          · rw [List.mem_singleton.mp new]
            exact missed
        · exact absurd retired live
      · obtain ⟨row, kept, standing⟩ := (stands initial member).2 live
        rcases rows row kept with ⟨retired, _⟩ | ⟨_, reply, probes, still, counts⟩
        · exact absurd retired (verdict_live standing.verdict)
        · rw [standing.id] at probes still counts
          refine ⟨_, still, ?_⟩
          -- The round adds one probe to the history of a live node.
          have longer : history (rounds ++ [roundOf answers]) initial.id =
              history rounds initial.id ++ [((roundOf answers).time, up (some reply))] := by
            rw [history_append, probes]
            rfl
          constructor
          · rw [judged_id, standing.id]
          · intro one among
            rcases List.mem_append.mp among with old | new
            · exact standing.probed one old
            · exact List.mem_singleton.mp new ▸ ⟨reply, probes⟩
          · rw [longer, counts, standing.count]
            cases up (some reply) with
            | true => exact (failedSince_true _ _).symm
            | false => exact (failedSince_false _ _).symm
          · rw [longer, standing.count]
            exact verdict_next positive standing.verdict _ (up (some reply))

theorem verdict_healthy {threshold : Nat} {initial row : StorageNode} {probes : List (Nat × Bool)}
    (verdict : Verdict threshold initial probes row) :
    row.status = .healthy ↔ (lastAnswer probes ≠ none ∧ failedSince probes < threshold) ∨
      (lastAnswer probes = none ∧ initial.status ≠ .unreachable ∧ probes.length < threshold) := by
  have other : row.status = .healthy ↔ ¬ row.status = .unreachable := by
    rcases verdict.known with was | was
    · simp [was]
    · simp [was]
  cases last : lastAnswer probes with
  | some time =>
      rw [(verdict.answered time last).2]
      simp
  | none =>
      obtain ⟨-, stays, falls⟩ := verdict.silent last
      by_cases began : initial.status = .unreachable
      · simp [stays began, began]
      · simp [other, falls began, began]

theorem verdict_status {threshold : Nat} {initial other row twin : StorageNode}
    {probes others : List (Nat × Bool)} (began : initial.status = other.status)
    (outcomes : probes.map (·.2) = others.map (·.2))
    (verdict : Verdict threshold initial probes row) (twins : Verdict threshold other others twin) :
    row.status = twin.status := by
  have since : failedSince probes = failedSince others := by
    have mapped : ∀ list : List (Nat × Bool),
        failedSince list = ((list.map (·.2)).reverse.takeWhile (! ·)).length := by
      intro list
      rw [← List.map_reverse, List.takeWhile_map, List.length_map]
      rfl
    rw [mapped, mapped, outcomes]
  have length : probes.length = others.length := by
    rw [← List.length_map (·.2), outcomes, List.length_map]
  have silent : lastAnswer probes = none ↔ lastAnswer others = none := by
    have mapped : ∀ list : List (Nat × Bool),
        lastAnswer list = none ↔ ∀ healthy ∈ list.map (·.2), healthy = false := by
      intro list
      simp [lastAnswer]
    rw [mapped, mapped, outcomes]
  have same : row.status = .healthy ↔ twin.status = .healthy := by
    rw [verdict_healthy verdict, verdict_healthy twins, since, length, began, Ne, silent]
  rcases verdict.known with was | was
  · rw [was, same.mp was]
  · rcases twins.known with now | now
    · rw [same.mpr now, now]
    · rw [was, now]

/-- After some rounds, every row of the start says what its own probes call for. -/
structure Decided (threshold : Nat) (before : Shared) (rounds : List Round) (after : Shared) :
    Prop where
  retired : ∀ initial ∈ before.db.nodes, initial.status = .decommissioned →
    initial ∈ after.db.nodes ∧
      ∀ round ∈ rounds, ∀ exchange ∈ round.asked, exchange.node ≠ initial.id
  live : ∀ initial ∈ before.db.nodes, initial.status ≠ .decommissioned →
    (∀ round ∈ rounds, ∃ reply, round.probes initial.id = [some reply]) ∧
      ∃ row ∈ after.db.nodes, row.id = initial.id ∧
        Verdict threshold initial (history rounds initial.id) row

/-- The status of a node is a function of its first status and the outcomes of its probes. -/
def Independent (settings : Settings) : Prop :=
  ∀ (before after other last : Shared) (rounds others : List Round) (failures counts : Failures),
    (before.db.nodes.map (·.id)).Nodup → Rounds settings before rounds failures after →
    (other.db.nodes.map (·.id)).Nodup → Rounds settings other others counts last →
      ∀ initial ∈ before.db.nodes, ∀ twin ∈ other.db.nodes, initial.id = twin.id →
        initial.status = twin.status →
        (history rounds initial.id).map (·.2) = (history others initial.id).map (·.2) →
          ∀ row ∈ after.db.nodes, ∀ copy ∈ last.db.nodes, row.id = initial.id →
            copy.id = initial.id → row.status = copy.status

theorem rounds_decided {settings : Settings} (positive : 1 ≤ settings.nodeFailureThreshold)
    {before after : Shared} {rounds : List Round} {failures : Failures}
    (distinct : (before.db.nodes.map (·.id)).Nodup)
    (run : Rounds settings before rounds failures after) :
    Decided settings.nodeFailureThreshold before rounds after := by
  obtain ⟨_, rows⟩ := rounds_rows positive distinct run
  constructor
  · intro initial member
    exact (rows initial member).1
  · intro initial member live
    obtain ⟨row, kept, standing⟩ := (rows initial member).2 live
    exact ⟨standing.probed, row, kept, standing.id, standing.verdict⟩

theorem rounds_independent {settings : Settings} (positive : 1 ≤ settings.nodeFailureThreshold) :
    Independent settings := by
  intro before after other last rounds others failures counts distinct run twinDistinct twinRun
    initial member twin twinMember same began outcomes row rowMember copy copyMember rowId copyId
  obtain ⟨afterDistinct, rows⟩ := rounds_rows positive distinct run
  obtain ⟨lastDistinct, copies⟩ := rounds_rows positive twinDistinct twinRun
  by_cases retired : initial.status = .decommissioned
  · have kept := ((rows initial member).1 retired).1
    have twinKept := ((copies twin twinMember).1 (began ▸ retired)).1
    rw [List.inj_on_of_nodup_map afterDistinct rowMember kept rowId,
      List.inj_on_of_nodup_map lastDistinct copyMember twinKept (copyId.trans same), began]
  · obtain ⟨found, foundMember, standing⟩ := (rows initial member).2 retired
    obtain ⟨copied, copiedMember, twinStanding⟩ := (copies twin twinMember).2 (began ▸ retired)
    rw [List.inj_on_of_nodup_map afterDistinct rowMember foundMember (rowId.trans standing.id.symm),
      List.inj_on_of_nodup_map lastDistinct copyMember copiedMember
        ((copyId.trans same).trans twinStanding.id.symm)]
    rw [same] at outcomes
    exact verdict_status began (same ▸ outcomes) standing.verdict twinStanding.verdict

/-- Node health is decided by consecutive failures only. -/
theorem health_decided (settings : Settings) (positive : 1 ≤ settings.nodeFailureThreshold) :
    (∀ (before after : Shared) (rounds : List Round) (failures : Failures),
      (before.db.nodes.map (·.id)).Nodup → Rounds settings before rounds failures after →
        Decided settings.nodeFailureThreshold before rounds after) ∧ Independent settings :=
  ⟨fun _ _ _ _ distinct run => rounds_decided positive distinct run, rounds_independent positive⟩

def patientSettings : Settings := { Service.smallSettings with nodeFailureThreshold := 2 }

def probing (clock : Nat) (nodes : List StorageNode) (log : List (Tid × List Write))
    (flights : List (Flight Tid)) : Shared :=
  ⟨clock, ⟨[], [], nodes, []⟩, log, [], fun _ _ => none, flights⟩

def flight (node : Uuid) (state : FlightState) (reply : Option Reply) : Flight Tid :=
  ⟨.worker, node, .healthz, state, reply⟩

def twoNodes : Shared := probing 0 [Service.healthyNode 1, Service.healthyNode 2] [] []

def firstRound : Round :=
  ⟨0, [⟨1, .healthz, some (some (answer 200))⟩, ⟨2, .healthz, some none⟩]⟩

def secondRound : Round :=
  ⟨10, [⟨2, .healthz, some none⟩, ⟨1, .healthz, some (some (answer 200))⟩]⟩

def onceProbed (clock : Nat) (flights : List (Flight Tid)) : Shared :=
  probing clock [{ Service.healthyNode 1 with lastSeenAt := some 0 }, Service.healthyNode 2]
    [(.worker, [.setLastSeen 1 0])]
    ([flight 1 (.answered (answer 200)) (some (some (answer 200))), flight 2 .lost (some none)] ++
      flights)

def twiceProbed : Shared :=
  probing 10 [{ Service.healthyNode 1 with lastSeenAt := some 10 },
      { Service.healthyNode 2 with status := .unreachable }]
    [(.worker, [.setLastSeen 1 0]), (.worker, [.setStatus 2 .unreachable, .setLastSeen 1 10])]
    [flight 1 (.answered (answer 200)) (some (some (answer 200))), flight 2 .lost (some none),
      flight 2 .lost (some none), flight 1 (.answered (answer 200)) (some (some (answer 200)))]

def onceCounted : Failures :=
  (probedAll 2 0 (fun _ => 0) [(Service.healthyNode 1, true), (Service.healthyNode 2, false)]).1

def twiceCounted : Failures :=
  (probedAll 2 10 onceCounted [(Service.healthyNode 2, false),
    ({ Service.healthyNode 1 with lastSeenAt := some 0 }, true)]).1

theorem first_round :
    Rounds patientSettings twoNodes [firstRound] onceCounted (onceProbed 0 []) := by
  have delivered : Undisturbed
      (probing 0 [Service.healthyNode 1, Service.healthyNode 2] []
        [flight 1 .pending none, flight 2 .pending none])
      (probing 0 [Service.healthyNode 1, Service.healthyNode 2] []
        [flight 1 (.answered (answer 200)) none, flight 2 .lost none]) :=
    ⟨List.prefix_rfl, by decide⟩
  have round : Executes (exec .worker) Undisturbed (checkNodeHealth patientSettings fun _ => 0)
      twoNodes
      [⟨.selectNodes fun node => node.status ≠ .decommissioned,
          [Service.healthyNode 1, Service.healthyNode 2]⟩,
        ⟨.send [(1, .healthz), (2, .healthz)], [0, 1]⟩,
        ⟨.await [0, 1], [some (answer 200), none]⟩, ⟨.now, 0⟩, ⟨.commit [.setLastSeen 1 0], ()⟩]
      onceCounted (onceProbed 0 []) := by
    apply Executes.op rfl
    apply Executes.op rfl
    apply Executes.wait delivered
    apply Executes.op rfl
    apply Executes.op rfl
    apply Executes.op rfl
    exact .ret
  exact .next .started round

theorem second_round :
    Rounds patientSettings twoNodes [firstRound, secondRound] twiceCounted twiceProbed := by
  have later : Undisturbed (onceProbed 0 []) (onceProbed 10 []) := ⟨List.prefix_rfl, by decide⟩
  have delivered : Undisturbed
      (onceProbed 10 [flight 2 .pending none, flight 1 .pending none])
      (onceProbed 10 [flight 2 .lost none, flight 1 (.answered (answer 200)) none]) :=
    ⟨List.prefix_rfl, by decide⟩
  have round : Executes (exec .worker) Undisturbed (checkNodeHealth patientSettings onceCounted)
      (onceProbed 10 [])
      [⟨.selectNodes fun node => node.status ≠ .decommissioned,
          [Service.healthyNode 2, { Service.healthyNode 1 with lastSeenAt := some 0 }]⟩,
        ⟨.send [(2, .healthz), (1, .healthz)], [2, 3]⟩,
        ⟨.await [2, 3], [none, some (answer 200)]⟩, ⟨.now, 10⟩,
        ⟨.commit [.setStatus 2 .unreachable, .setLastSeen 1 10], ()⟩]
      twiceCounted twiceProbed := by
    apply Executes.op rfl
    apply Executes.op rfl
    apply Executes.wait delivered
    apply Executes.op rfl
    apply Executes.op rfl
    apply Executes.op rfl
    exact .ret
  exact .next (.between first_round later) round

theorem health_decided_twice : Decided 2 twoNodes [firstRound, secondRound] twiceProbed :=
  (health_decided patientSettings (by decide)).1 _ _ _ _ (by decide) second_round

section Service

open Transition RelyGuarantee Service

variable {platform : Platform}

/-- The operator changes no status. -/
def Unoperated : ServiceLabel → Prop
  | .env (.operator _ _) => False
  | _ => True

theorem environment_undisturbed {before after : Shared} {event : Event}
    (done : environment platform before event = some after)
    (unoperated : ∀ node status, event ≠ .operator node status) :
    before.db.nodes <+: after.db.nodes := by
  cases event with
  | tick seconds =>
      cases done
      exact List.prefix_rfl
  | execute handle =>
      obtain ⟨flight, -, rfl⟩ := Option.map_eq_some_iff.mp done
      unfold Shared.execute
      split <;> exact List.prefix_rfl
  | lose handle =>
      obtain ⟨flight, -, rfl⟩ := Option.map_eq_some_iff.mp done
      exact List.prefix_rfl
  | misreply handle response =>
      obtain ⟨flight, -, rfl⟩ := Option.map_eq_some_iff.mp done
      exact List.prefix_rfl
  | damage target shardId entry =>
      cases done
      exact List.prefix_rfl
  | operator target status => exact absurd rfl (unoperated target status)
  | register row =>
      obtain ⟨-, same⟩ := Option.ite_none_right_eq_some.mp done
      cases same
      exact List.prefix_append _ _

theorem rewritten_none (writes : List Write) (none : ∀ write ∈ writes, ¬ LifeCycle.ofNodes write)
    (row : StorageNode) : rewritten writes row = row := by
  induction writes with
  | nil => rfl
  | cons write rest ih =>
      have untouched : written row write = row := by
        cases write with
        | setLastSeen node seen => exact absurd trivial (none _ List.mem_cons_self)
        | setStatus node status => exact absurd trivial (none _ List.mem_cons_self)
        | _ => rfl
      rw [rewritten, List.foldl_cons, untouched]
      exact ih fun other member => none other (List.mem_cons_of_mem _ member)

theorem exec_undisturbed {thread : Tid} {before after : Shared} {request : Op}
    {answer : Res request} (done : exec thread before request answer = some after)
    (within : Attribution.Within (fun write => ¬ LifeCycle.ofNodes write) request) :
    after.db.nodes = before.db.nodes := by
  cases request with
  | commit writes =>
      obtain ⟨db, committed, rfl⟩ := Option.map_eq_some_iff.mp done
      rw [commit_rewritten writes committed]
      rw [List.map_congr_left fun row _ => rewritten_none writes within row, List.map_id']
  | await handles =>
      obtain ⟨flights, -, rfl⟩ := Option.map_eq_some_iff.mp done
      rfl
  | _ =>
      obtain ⟨-, same⟩ := Option.ite_none_right_eq_some.mp done
      cases same
      rfl

theorem api_within {clock : Nat} {labels : List ServiceLabel} {config : ServiceConfig}
    (run : Run (Step (service platform)) (deployed clock) labels config) {thread : Tid}
    (apart : thread ≠ .worker) {job : Job} {rest : Async Outcome}
    (running : config.threads thread = .running job rest) :
    rest.Only (Attribution.Within fun write => ¬ LifeCycle.ofNodes write) := by
  refine run_programs (fun thread _ rest => thread ≠ .worker →
    rest.Only (Attribution.Within fun write => ¬ LifeCycle.ofNodes write)) ?_ ?_ run
    (fun _ _ _ fresh => by cases fresh) thread job rest running apart
  · intro thread job may elsewhere
    apply Prog.only_mono (Attribution.program_within job)
    intro request within
    cases request with
    | commit writes =>
        intro write member ofNodes
        have mayWrite := within write member
        cases thread with
        | worker => exact elsewhere rfl
        | api number =>
            cases write with
            | setLastSeen node seen =>
                cases job with
                | checkNodeHealth settings failures => cases may
                | _ => exact mayWrite
            | setStatus node status =>
                cases job with
                | checkNodeHealth settings failures => cases may
                | _ => exact mayWrite
            | _ => exact ofNodes
    | _ => trivial
  · intro thread job request next answer only elsewhere
    exact (only elsewhere).2 answer

theorem service_undisturbed {clock : Nat} {labels : List ServiceLabel} {before after : ServiceConfig}
    {label : ServiceLabel} (run : Run (Step (service platform)) (deployed clock) labels before)
    (taken : Step (service platform) before label after) (apart : ¬ By .worker label)
    (unoperated : Unoperated label) : Undisturbed before.shared after.shared := by
  have distinct := (Guarantees.service_safe run).inv.nodes_nodup
  have afterDistinct := (Guarantees.service_safe (run_append run (run_single taken))).inv.nodes_nodup
  refine ⟨?_, afterDistinct⟩
  cases taken with
  | start _ _ => exact List.prefix_rfl
  | fail _ => exact List.prefix_rfl
  | finish _ => exact List.prefix_rfl
  | env done =>
      apply environment_undisturbed done
      rintro node status rfl
      exact unoperated
  | @act thread job request next answer shared at_op done =>
      have within := (api_within run (fun same => apart same) at_op).1
      rw [← exec_undisturbed done within]

def Reached (platform : Platform) (clock : Nat) (config : ServiceConfig) : Prop :=
  ∃ labels, Run (Step (service platform)) (deployed clock) labels config

/-- What the worker does of a round between its start and its end in a run of the service. -/
theorem service_round {clock : Nat} {past labels : List ServiceLabel}
    {start : Shared} {before after : ServiceConfig} {settings : Settings} {rounds : List Round}
    {failures : Failures} (reached : Run (Step (service platform)) (deployed clock) past before)
    (earlier : Rounds settings start rounds failures before.shared)
    (begun : before.threads .worker = .running (.checkNodeHealth settings failures)
      (program platform (.checkNodeHealth settings failures)))
    (run : Run (Guarded (fun _ label => Unoperated label) (Step (service platform))) before labels
      after)
    (acts : ∀ label ∈ labels, By .worker label →
      ∃ request answer, label = .act .worker request answer)
    (ended : after.threads .worker = .running (.checkNodeHealth settings failures)
      (.ret (.returned 0))) :
    ∃ counted, Rounds settings start (rounds ++ [roundOf (answersOf .worker labels)]) counted
      after.shared := by
  obtain ⟨rest, advances, at_rest⟩ := run_advances (guarded_run run) begun acts
  rw [ended] at at_rest
  obtain ⟨counted, rfl⟩ : ∃ counted, rest = .ret counted := by
    cases rest with
    | op request resume => cases at_rest
    | ret counted => exact ⟨counted, rfl⟩
  have kept : ∀ config label next, Reached platform clock config →
      Guarded (fun _ label => Unoperated label) (Step (service platform)) config label next →
        Reached platform clock next := by
    rintro config label next ⟨labels, reached⟩ step
    exact ⟨labels ++ [label], .next reached step.1⟩
  have moves : ∀ config label next, Reached platform clock config → ¬ By .worker label →
      Guarded (fun _ label => Unoperated label) (Step (service platform)) config label next →
        Undisturbed config.shared next.shared := by
    rintro config label next ⟨labels, reached⟩ apart step
    exact service_undisturbed reached step.1 apart step.2
  have executes := run_executes kept moves ⟨past, reached⟩ run advances
  exact ⟨counted, .next earlier executes⟩

end Service

end SecureFileSystem.NodeHealth
