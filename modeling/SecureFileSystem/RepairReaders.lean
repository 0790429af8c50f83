import SecureFileSystem.RepairSafety
import SecureFileSystem.BitRot

/-!
A repair from its start to a crash or its end, with readers beside it. A reader
holds rows that the repair may have moved since; the rows it does not touch are
enough for the file.
-/

namespace SecureFileSystem.RepairReaders

open Base Database Fleet Session LifeCycle Program Transition RelyGuarantee Erasure Files
  Maintenance Service Interference Stability Conduct Guarantees Wire Objects Records Layering
  Reading Durability Restoration BitRot RepairBooks RepairSafety

/-- As many rows as a read needs, none of them to be replaced. -/
structure Sources (order : Order) (k : Nat) (good : List Shard) : Prop where
  found : ∀ row ∈ good, row ∈ order.origin
  spared : ∀ row ∈ good, row.id ∉ order.bad
  distinct : good.Nodup
  enough : k ≤ good.length

/-- The reader can read these rows intact: their nodes are not decommissioned when
it looks for rows, and a read of one that it waits for brings the row's bytes. -/
def Intact (platform : Platform) (reader : Tid) (good : List Shard) (shared : Shared) :
    ServiceLabel → Prop
  | .act thread (.selectPlaced _) _ => thread = reader → ∀ row ∈ good,
      ∀ node ∈ shared.db.nodes, node.id = row.nodeId → node.status ≠ .decommissioned
  | .act thread (.await handles) replies => thread = reader →
      ∀ (position handle : Nat) (reply : Reply) (flight : Flight Tid),
        handles[position]? = some handle → replies[position]? = some reply →
        shared.flights[handle]? = some flight → ∀ row ∈ good,
          flight.node = row.nodeId → flight.request = .get row.id →
            ∃ block, getShard reply = .ok block ∧ platform.sha256Hex block = row.checksumSha256
  | _ => True

/-- What a reader counts on: the others leave its requests on the wire, it may take its own
steps, and the rows it relies on stand and can be read. -/
structure Shelter (platform : Platform) (layer : Layer) (fileId : Uuid) (request base : Nat)
    (good : List Shard) : Prop where
  lasts : layer.Lasts
  late : ∀ shared, layer.inv shared → base ≤ shared.flights.length
  acts : ∀ (asked : Op) before (answer : Res asked) after, WellFormed before → layer.inv before →
    exec (.api request) before asked answer = some after → Life (.api request) before after →
    layer.allowed before (.act (.api request) asked answer) →
      layer.move (.api request) before after
  stands : ∀ shared, layer.inv shared → ∀ row ∈ good, row ∈ shared.db.shardsOf fileId
  usable : ∀ shared condition rows, layer.inv shared →
    layer.allowed shared (.act (.api request) (.selectPlaced condition) rows) → ∀ row ∈ good,
      ∀ node ∈ shared.db.nodes, node.id = row.nodeId → node.status ≠ .decommissioned
  heard : ∀ before handles replies after, layer.inv before →
    exec (.api request) before (.await handles) replies = some after →
    layer.allowed before (.act (.api request) (.await handles) replies) →
    ∀ (position handle : Nat) (reply : Reply) (flight : Flight Tid), base ≤ handle →
      handles[position]? = some handle → replies[position]? = some reply →
      before.flights[handle]? = some flight → ∀ row ∈ good,
        flight.node = row.nodeId → flight.request = .get row.id →
          ∃ block, getShard reply = .ok block ∧ platform.sha256Hex block = row.checksumSha256

/-- A row that stands, on a node that is not decommissioned, is among those a read selects. -/
theorem standing_selected {shared : Shared} {file : File} {rows : List (Shard × StorageNode)}
    {row : Shard} (wf : WellFormed shared)
    (selected : rows.Perm (shared.db.placed.filter fun row => readable file shared.db row.1 row.2))
    (stands : row ∈ shared.db.shardsOf file.id)
    (usable : ∀ node ∈ shared.db.nodes, node.id = row.nodeId → node.status ≠ .decommissioned) :
    ∃ node, node.id = row.nodeId ∧ (row, node) ∈ rows := by
  obtain ⟨present, owner⟩ := List.mem_filter.mp stands
  obtain ⟨node, registered, onNode⟩ := List.mem_map.mp (wf.hosted row present)
  have up := usable node registered onNode
  have placed : (row, node) ∈ shared.db.placed := mem_placed present registered onNode
  refine ⟨node, onNode, selected.mem_iff.mpr (List.mem_filter.mpr ⟨placed, ?_⟩)⟩
  simp only [decide_eq_true_eq] at owner
  simp [readable, owner, up]

theorem among_counted {good : List Shard} {rows : List (Shard × StorageNode)}
    (nodup : good.Nodup) (among : ∀ row ∈ good, row ∈ rows.map Prod.fst) :
    good.length ≤ rows.countP fun row => row.1 ∈ good := by
  have part := (List.subperm_of_subset nodup among).countP_le (· ∈ good)
  rw [List.countP_map, List.countP_eq_length.mpr (by simp)] at part
  exact part

section Reader
variable {platform : Platform} {layer : Layer} {fileId : Uuid} {request base k m : Nat}
  {good : List Shard} {post : Tid → Job → Outcome → Shared → Prop} {Out : Type}
  {result : Out → Shared → Prop} {holds : Shared → Prop} {state : Shared} {data : Bytes}

abbrev SafeReader (platform : Platform) (layer : Layer)
    (post : Tid → Job → Outcome → Shared → Prop) (request : Nat)
    (result : Out → Shared → Prop) (prog : Async Out) (state : Shared) : Prop :=
  Safe (service platform) (layer.contract post) (.api request) result prog state

theorem reader_op (shelter : Shelter platform layer fileId request base good) {asked : Op}
    {next : Res asked → Async Out} (stable : Stable (layer.contract post) (.api request) holds)
    (start : holds state)
    (step : ∀ before answer after, WellFormed before → layer.inv before → holds before →
      exec (.api request) before asked answer = some after →
      layer.allowed before (.act (.api request) asked answer) →
        SafeReader platform layer post request result (next answer) after) :
    SafeReader platform layer post request result (.op asked next) state := by
  apply layer_op stable start
  intro before answer after wf inv held done life may
  constructor
  · exact shelter.acts asked before answer after wf inv done life may
  · exact step before answer after wf inv held done may

theorem sent_stable (shelter : Shelter platform layer fileId request base good) (handle : Nat)
    (requests : List (Uuid × NodeRequest)) :
    Stable (layer.contract post) (.api request) (OnWire (.api request) handle requests) := by
  apply layer_stable
  · intro before after _ _ _ drift on
    exact onWire_later (shelter.lasts.drift before after drift) on
  · intro other before after _ _ _ _ move on
    exact onWire_later (shelter.lasts.move other before after move) on

/-- The rows it may rely on are among those it has still to try, or have been read. -/
theorem fetchRounds_reader (shelter : Shelter platform layer fileId request base good)
    (distinct : Function.Injective platform.sha256Hex)
    (fuel : Nat) (collected : Blocks) (remaining : List (Shard × StorageNode))
    (joined : ∀ row ∈ remaining, row.2.id = row.1.nodeId)
    (encodes : Encodes platform data k m remaining) (ids : (remaining.map (·.1.id)).Nodup)
    (genuine : Genuine platform.zfec data k m collected)
    (fresh : ∀ row ∈ remaining, row.1.shardIndex ∉ collected.map (·.1))
    (fuelled : remaining.length ≤ fuel)
    (enough : k ≤ collected.length + remaining.countP fun row => row.1 ∈ good) :
    SafeReader platform layer post request
      (fun blocks _ => Genuine platform.zfec data k m blocks ∧ k ≤ blocks.length)
      (fetchRounds platform k fuel collected remaining) state := by
  induction fuel generalizing collected remaining state with
  | zero =>
      have empty : remaining = [] := List.length_eq_zero_iff.mp (Nat.le_zero.mp fuelled)
      subst empty
      exact safe_ret (stable_const True) trivial fun _ _ _ => ⟨genuine, enough⟩
  | succ fuel ih =>
      unfold fetchRounds
      split
      · rename_i going
        obtain ⟨short, more⟩ := going
        have whole := List.take_append_drop (k - collected.length) remaining
        have shorter : (remaining.drop (k - collected.length)).length ≤ fuel := by
          have some := List.length_pos_iff.mpr more
          rw [List.length_drop]
          omega
        generalize remaining.take (k - collected.length) = batch at whole ⊢
        generalize remaining.drop (k - collected.length) = later at whole shorter ⊢
        subst whole
        rw [List.map_append, List.nodup_append] at ids
        have firsts := encodes_sublist encodes (List.sublist_append_left _ _)
        apply reader_op shelter (stable_const True) trivial
        intro before handles launched _ inv _ taken _
        obtain ⟨rfl, on⟩ := send_onWire taken
        have late := shelter.late before inv
        apply reader_op shelter (sent_stable shelter _ _) on
        intro waiting replies told _ inv on done may
        have count : replies.length = batch.length := by
          have heard := (await_heard (Nat.zero_le _) on done).length
          rw [heard]
          exact List.length_map _
        -- whatever the other nodes say, these answers are blocks of the file
        have right : ∀ (index : Nat) row reply, batch[index]? = some row →
            replies[index]? = some reply → decide (row.1 ∈ good) = true →
              getShard reply = .ok (codeBlock platform.zfec data k m row.1.shardIndex) := by
          intro index row reply at_row got isGood
          have member := List.mem_of_getElem? at_row
          have asked : (getRequests batch)[index]? = some (row.2.id, .get row.1.id) := by
            rw [getRequests, List.getElem?_map, at_row]
            rfl
          obtain ⟨flight, found, same⟩ := on index _ asked
          simp only [sent, Prod.mk.injEq] at same
          have inside := (List.getElem?_eq_some_iff.mp asked).1
          obtain ⟨block, read, checksum⟩ := shelter.heard waiting _ replies told inv done may index _
            reply flight (late.trans (Nat.le_add_right _ _)) (by simp [inside]) got found row.1
            (of_decide_eq_true isGood)
            (same.2.1.trans (joined row (List.mem_append_left _ member))) same.2.2
          rw [read, distinct (checksum.trans (firsts.checksum row member))]
        obtain ⟨world, grows, counted⟩ := batch_grows distinct (fun row => decide (row.1 ∈ good))
          count ids.1 firsts genuine (fun row member => fresh row (List.mem_append_left _ member))
          right
        apply ih _ later (fun row member => joined row (List.mem_append_right _ member))
          (encodes_sublist encodes (List.sublist_append_right _ _)) ids.2.1 grows.genuine
          (grows_further encodes grows fresh) shorter
        have gained := grows.counted
        rw [List.countP_append] at enough
        omega
      · rename_i stop
        refine safe_ret (stable_const True) trivial fun _ _ _ => ⟨genuine, ?_⟩
        rw [not_and_or, Nat.not_lt, Decidable.not_not] at stop
        rcases stop with full | empty
        · exact full
        · rw [empty, List.countP_nil] at enough
          exact enough

theorem uploaded_stable {thread uploader : Tid} {original : File} {shards : List Shard} :
    Stable (layer.contract post) thread fun shared => Uploaded shared uploader original shards := by
  apply layer_stable
  · intro before after _ _ undisturbed _ uploaded
    unfold Uploaded
    rw [undisturbed.log]
    exact uploaded
  · exact fun _ _ _ _ _ _ life _ uploaded => life_log life uploaded

/-- A reader with enough such rows comes to the file's bytes. -/
theorem readFile_reader {file : File} (shelter : Shelter platform layer file.id request base good)
    (distinct : Function.Injective platform.sha256Hex)
    (mds : Mds platform.zfec file.dataShards (file.dataShards + file.parityShards))
    (positive : 1 ≤ file.dataShards)
    (size : file.sizeBytes = data.length) (checksum : file.checksumSha256 = platform.sha256Hex data)
    (encodes : ∀ shared, WellFormed shared → holds shared → ∀ rows : List (Shard × StorageNode),
      (rows.map Prod.fst).Subperm (shared.db.shardsOf file.id) →
        Encodes platform data file.dataShards file.parityShards rows)
    (stable : Stable (layer.contract post) (.api request) holds) (start : holds state)
    (nodup : good.Nodup) (enough : file.dataShards ≤ good.length) :
    SafeReader platform layer post request (fun out _ => out = .ok data)
      (readFile platform file) state := by
  apply reader_op shelter stable start
  intro before rows after wf inv held done may
  obtain ⟨selected, same⟩ := Option.ite_none_right_eq_some.mp done
  cases same
  change rows.Perm (before.db.placed.filter fun row => readable file before.db row.1 row.2)
    at selected
  change SafeReader platform layer post request _
    ((fetchRounds platform file.dataShards (candidates [] [] rows).length []
      (candidates [] [] rows)).bind _) before
  have tried := @candidates_subperm before.db file [] [] rows wf.nodes_nodup selected
  have real := encodes before wf held _ tried
  -- The rows stand, their nodes are up, and so each is a candidate.
  have counted : file.dataShards ≤ (candidates [] [] rows).countP fun row => row.1 ∈ good := by
    apply enough.trans
    apply among_counted nodup
    intro row member
    obtain ⟨node, -, chosen⟩ := standing_selected wf selected
      (shelter.stands before inv row member) (shelter.usable before _ rows inv may row member)
    apply candidates_perm.mem_iff.mpr
    simpa using ⟨node, chosen⟩
  refine safe_bind (fetchRounds_reader shelter distinct _ [] _ ?_ real ?_
    ⟨List.nodup_nil, fun _ member => absurd member List.not_mem_nil⟩
    (fun _ _ => List.not_mem_nil) (Nat.le_refl _) ?_) ?_
  · exact fun row member => (candidates_member selected member).2.2
  · obtain ⟨part, same, sub⟩ := tried
    have distinct_ids : (part.map (·.id)).Nodup :=
      wf.shards_nodup.sublist ((sub.trans List.filter_sublist).map _)
    have ids := (same.map (·.id)).nodup_iff.mp distinct_ids
    rwa [List.map_map] at ids
  · simpa using counted
  · rintro blocks later - ⟨genuine, full⟩
    rw [if_neg (Nat.not_lt.mpr full), size, decode_genuine mds positive genuine full]
    simp only [checksum, ne_eq, not_true_eq_false, if_false]
    exact safe_ret (stable_const True) trivial fun _ _ _ => rfl

/-- The same of a copy of the file's row. -/
theorem copy_reader {thread : Tid} {original file copy : File} {shards : List Shard}
    (shelter : Shelter platform layer copy.id request base good)
    (distinct : Function.Injective platform.sha256Hex)
    (mds : Mds platform.zfec file.dataShards (file.dataShards + file.parityShards))
    (positive : 1 ≤ file.dataShards)
    (size : file.sizeBytes = data.length) (checksum : file.checksumSha256 = platform.sha256Hex data)
    (encodes : ∀ shared, WellFormed shared → Uploaded shared thread original shards →
      ∀ rows : List (Shard × StorageNode),
        (rows.map Prod.fst).Subperm (shared.db.shardsOf file.id) →
          Encodes platform data file.dataShards file.parityShards rows)
    (same : sameFile copy file) (uploaded : Uploaded state thread original shards)
    (nodup : good.Nodup) (enough : file.dataShards ≤ good.length) :
    SafeReader platform layer post request (fun out _ => out = .ok data)
      (readFile platform copy) state := by
  obtain ⟨named, -, -, size', checksum', k, m, -⟩ := same
  refine readFile_reader shelter distinct ?_ (k ▸ positive) (size'.trans size)
    (checksum'.trans checksum) ?_ uploaded_stable uploaded nodup (k ▸ enough)
  · rw [k, m]
    exact mds
  · intro shared wf uploaded rows some
    rw [k, m]
    exact encodes shared wf uploaded rows (named ▸ some)

end Reader

section Sources
variable {platform : Platform} {order : Order} {request k : Nat} {good : List Shard}

abbrev reading (platform : Platform) (order : Order) (request : Nat) (good : List Shard) : Layer :=
  (order.layer platform).restrict (Intact platform (.api request) good)

theorem elsewhere_lasting {before after : Shared} (elsewhere : order.Elsewhere before after) :
    Lasting before after := by
  intro index flight found
  obtain ⟨later, there, same, -⟩ := elsewhere.kept index flight found
  exact ⟨later, there, same⟩

theorem spared_stands {before : Shared} (mends : order.Mends platform before) {row : Shard}
    (found : row ∈ order.origin) (spared : row.id ∉ order.bad) :
    row ∈ before.db.shardsOf order.fileId := by
  obtain ⟨index, inside, here⟩ := List.mem_iff_getElem.mp found
  have bound : index < (before.db.shardsOf order.fileId).length := by
    rw [mends.count]
    exact inside
  have paired : (row, (before.db.shardsOf order.fileId)[index]) ∈ order.pairs before := by
    apply List.mem_iff_getElem.mpr
    refine ⟨index, by simp [Order.pairs, inside, bound], ?_⟩
    simp [Order.pairs, here]
  cases mends.rows _ paired with
  | kept same =>
      have member := List.getElem_mem bound
      dsimp only at same
      exact same ▸ member
  | moved marked _ _ _ _ _ => exact absurd marked spared

theorem sources_shelter (sources : Sources order k good) :
    Shelter platform (reading platform order request good) order.fileId request 0 good where
  lasts := ⟨fun _ _ drift => elsewhere_lasting drift.2, fun _ _ _ move => move.2.1⟩
  late := fun _ _ => Nat.zero_le _
  acts := fun _ _ _ _ wf mends done life may =>
    ⟨stranger_mends wf done life may.1.1 may.1.2 mends, exec_lasting done,
      fun _ => stranger_elsewhere wf done life may.1.1 mends⟩
  stands := fun _ mends row member =>
    spared_stands mends (sources.found row member) (sources.spared row member)
  usable := fun _ _ _ _ may => may.2 rfl
  heard := fun _ _ _ _ _ _ may position handle reply flight _ => may.2 rfl position handle reply flight

end Sources

abbrev watched (file : File) (bad : List Uuid) (faithful : Prop) (opening : ServiceConfig) : Order :=
  ⟨file.id, bad, opening.shared, faithful⟩

/-- Runs in which the file is not deleted, and the worker does nothing but this repair. -/
abbrev Beside (platform : Platform) (order : Order) :
    ServiceConfig → List ServiceLabel → ServiceConfig → Prop :=
  Run (Guarded (fun config label => order.allowed config.shared label) (Step (service platform)))

structure Preserved (platform : Platform) (order : Order) (config : ServiceConfig) : Prop where
  count : (config.shared.db.shardsOf order.fileId).length = order.origin.length
  rows : ∀ pair ∈ order.pairs config.shared,
    order.Mended platform config.shared pair.1 pair.2
  stored : order.faithful → ∀ node id data, order.Acknowledged config.shared node id data →
    config.shared.objects node id = some ⟨platform.sha256Hex data, data⟩
  deletes : ∀ (index : Nat) (flight : Flight Tid) (id : Uuid), order.base ≤ index →
    config.shared.flights[index]? = some flight → flight.sender = .worker →
      flight.request = .delete id → order.Replaced config.shared flight.node id
  returned : ∀ count after, Step (service platform) config
    (.finish .worker (.repairFile order.fileId order.bad) (.returned count)) after →
      order.repointed config.shared = count

/-- Whoever reads the file beside the repair comes to these bytes. -/
def Readable (platform : Platform) (order : Order) (opening : ServiceConfig) (file : File)
    (data : Bytes) : Prop :=
  ∀ first second middle config request good job copy
    (next : Except FilesError Bytes → Async Outcome) out,
    Beside platform order opening first middle →
    Run (Guarded (fun config label => order.allowed config.shared label ∧
      Intact platform (.api request) good config.shared label) (Step (service platform)))
      middle second config →
    Sources order file.dataShards good → sameFile copy file →
    middle.threads (.api request) = .running job ((readFile platform copy).bind next) →
    Advances (.api request) (readFile platform copy) second (.ret out) → out = .ok data

section Runs
variable {platform : Platform} {clock : Nat} {earlier labels : List ServiceLabel}
  {opening config : ServiceConfig} {file : File} {bad : List Uuid} {faithful : Prop}
  {also : Shared → ServiceLabel → Prop}

theorem start_mends (reached : Run (Step (service platform)) (deployed clock) earlier opening)
    (present : file ∈ opening.shared.db.files) (available : file.status = .available) :
    (watched file bad faithful opening).Mends platform opening.shared := by
  have same : (watched file bad faithful opening).pairs opening.shared =
      (opening.shared.db.shardsOf file.id).map fun row => (row, row) := List.zipWith_self
  have late : ∀ {index : Nat} {flight : Flight Tid}, opening.shared.flights.length ≤ index →
      opening.shared.flights[index]? ≠ some flight := by
    intro index flight beyond
    rw [List.getElem?_eq_none beyond]
    exact Option.some_ne_none flight |>.symm
  have untold : ∀ node id data,
      ¬ (watched file bad faithful opening).Acknowledged opening.shared node id data := by
    rintro node id data ⟨index, flight, response, beyond, found, -⟩
    exact late beyond found
  constructor
  case standing => exact ⟨file, present, rfl, by simp [available]⟩
  case count => rfl
  case rows =>
    rw [same]
    intro pair member
    obtain ⟨row, -, rfl⟩ := List.mem_map.mp member
    exact .kept rfl
  case length => exact Nat.le_refl _
  case own => exact fun index flight id data beyond found => absurd found (late beyond)
  case stored => exact fun _ node id data told => absurd told (untold node id data)
  case apart => exact fun flight _ id _ own => own.2 (List.mem_map_of_mem own.1)
  case deletes => exact fun index flight id beyond found => absurd found (late beyond)
  case named => exact (run_recorded reached).named
  case earlier => exact fun _ member => member

theorem step_naming (reached : Run (Step (service platform)) (deployed clock) earlier opening)
    {label : ServiceLabel} (taken : Step (service platform) opening label config) :
    Naming opening.shared label := by
  cases taken with
  | @act thread job request next answer shared at_op done =>
      have abides := (run_recorded reached).running thread job _ at_op
      cases request with
      | send requests => exact abides.1
      | _ => trivial
  | _ => trivial

theorem named_run {guard : ServiceConfig → ServiceLabel → Prop}
    (reached : Run (Step (service platform)) (deployed clock) earlier opening)
    (run : Run (Guarded guard (Step (service platform))) opening labels config) :
    Run (Guarded (fun config label => guard config label ∧ Naming config.shared label)
      (Step (service platform))) opening labels config :=
  run_also (fun _ _ _ _ there taken => step_naming there taken) reached run

def counts (order : Order) (thread : Tid) (job : Job) (out : Outcome) (shared : Shared) : Prop :=
  thread = .worker → ∀ count, job = .repairFile order.fileId order.bad → out = .returned count →
    order.repointed shared = count

theorem program_mends (order : Order) (wfStart : WellFormed order.start) (thread : Tid) (job : Job)
    (shared : Shared) (may : order.allowed shared (.start thread job)) :
    SafeOrder platform order (counts order) thread (counts order thread job)
      (program platform job) shared := by
  cases thread with
  | worker =>
      obtain ⟨rfl, untouched⟩ := may rfl
      apply safe_map
      refine safe_mono (repairFile_mends wfStart untouched) ?_
      intro out later _ moved _ count _ same
      cases out with
      | ok returned =>
          cases same
          exact moved count rfl
      | error _ => cases same
  | api request => exact stranger_safe request (fun _ _ same => absurd same (by simp)) _

theorem running_mends (order : Order)
    (resting : ∀ job rest, opening.threads .worker ≠ .running job rest) :
    ∀ thread job rest, opening.threads thread = .running job rest →
      SafeOrder platform order (counts order) thread (counts order thread job) rest
        opening.shared := by
  intro thread job rest running
  cases thread with
  | worker => exact absurd running (resting job rest)
  | api request => exact stranger_safe request (fun _ _ same => absurd same (by simp)) rest

theorem beside_safe (order : Order) (same : order.start = opening.shared)
    (reached : Run (Step (service platform)) (deployed clock) earlier opening)
    (resting : ∀ job rest, opening.threads .worker ≠ .running job rest)
    (start : order.Mends platform opening.shared)
    (run : Beside platform order opening labels config) :
    AllSafe (service platform) ((order.layer platform).contract (counts order)) config := by
  have wf := (service_safe reached).inv
  apply layer_run (layer_sound platform order) ?_ reached ⟨⟨wf, start⟩, running_mends order resting⟩
    (named_run reached run)
  intro thread job shared _ _ _ may
  exact program_mends order (same ▸ wf) thread job shared may.1

theorem beside_preserved (order : Order)
    (all : AllSafe (service platform) ((order.layer platform).contract (counts order)) config) :
    Preserved platform order config := by
  have mends : order.Mends platform config.shared := all.inv.2
  constructor
  case count => exact mends.count
  case rows => exact mends.rows
  case stored => exact mends.stored
  case deletes => exact mends.deletes
  case returned =>
    intro count after taken
    cases taken with
    | finish at_ret =>
        exact all.threads .worker _ _ at_ret config.shared .refl all.inv rfl count rfl rfl

/-- A reader that starts beside the repair, among threads that are safe beside it. -/
theorem beside_reads {request : Nat} {good : List Shard} {middle : ServiceConfig} {data : Bytes}
    (order : Order) (wfStart : WellFormed order.start)
    (reached : Run (Step (service platform)) (deployed clock) earlier middle)
    (all : AllSafe (service platform) ((order.layer platform).contract (counts order)) middle)
    (run : Run (Guarded (fun config label => order.allowed config.shared label ∧
      RepairReaders.Intact platform (.api request) good config.shared label) (Step (service platform)))
      middle labels config) {job : Job} {first : Async (Except FilesError Bytes)}
    {next : Except FilesError Bytes → Async Outcome} {out : Except FilesError Bytes}
    (running : middle.threads (.api request) = .running job (first.bind next))
    (safe : SafeReader platform (reading platform order request good) (counts order) request
      (fun out _ => out = .ok data) first middle.shared)
    (advances : Advances (.api request) first labels (.ret out)) : out = .ok data := by
  have begins : ∀ thread job shared,
      ((reading platform order request good).contract (counts order)).inv shared →
      starts thread job = true →
      ((reading platform order request good).contract (counts order)).allowed shared
        (.start thread job) →
      Safe (service platform) ((reading platform order request good).contract (counts order)) thread
        (counts order thread job) (program platform job) shared := by
    intro thread job shared _ _ may
    exact safe_restrict (program_mends order wfStart thread job shared may.2.1.1)
  have everyone : AllSafe (service platform)
      ((reading platform order request good).contract (counts order)) middle :=
    ⟨all.inv, fun thread job rest at_rest => safe_restrict (all.threads thread job rest at_rest)⟩
  have kept : Run (Guarded (fun config label => (reading platform order request good).allowed
      config.shared label) (Step (service platform))) middle labels config := by
    refine run_mono ?_ (named_run reached run)
    exact fun before label after taken => ⟨taken.1, ⟨taken.2.1.1, taken.2.2⟩, taken.2.1.2⟩
  have within := @layer_contract platform _ (counts order) clock earlier labels middle config
    reached kept
  have sound : Layering.Sound platform (reading platform order request good) :=
    restrict_sound (layer_sound platform order)
  have composes := @layer_composes platform _ (counts order) sound
  obtain ⟨-, ended⟩ := advances_safe composes begins everyone running safe within advances
  exact ended config.shared .refl (run_safe composes begins everyone within).inv

end Runs

/-- Whatever goes on beside a repair of an available file, but no deletion of it: a
row names its old object or a rebuilt one that its node has acknowledged, only old
objects of moved rows are deleted, the count is that of the moved rows, and readers
read on. -/
theorem repairFile_preserves (platform : Platform) (clock : Nat) (earlier : List ServiceLabel)
    (opening : ServiceConfig)
    (reached : Run (Step (service platform)) (deployed clock) earlier opening)
    (resting : ∀ job rest, opening.threads .worker ≠ .running job rest) (file : File)
    (present : file ∈ opening.shared.db.files) (available : file.status = .available)
    (bad : List Uuid) (faithful : Prop) :
    (∀ labels config, Beside platform (watched file bad faithful opening) opening labels config →
      Preserved platform (watched file bad faithful opening) config) ∧
    (Function.Injective platform.sha256Hex →
      Mds platform.zfec file.dataShards (file.dataShards + file.parityShards) →
      ∃ data, file.checksumSha256 = platform.sha256Hex data ∧
        Readable platform (watched file bad faithful opening) opening file data) := by
  have start := @start_mends platform clock earlier opening file bad faithful reached present
    available
  have wf := (service_safe reached).inv
  constructor
  · intro labels config run
    exact beside_preserved _ (beside_safe _ rfl reached resting start run)
  · intro distinct mds
    obtain ⟨data, thread, original, shards, -, size, checksum, uploaded, codes⟩ :=
      file_encoded reached present
    have positive : 1 ≤ file.dataShards :=
      (of_decide_eq_true (run_checked reached file present)).2.1
    refine ⟨data, checksum, ?_⟩
    intro first second middle config request good job copy next out before run sources same running
      advances
    have all := beside_safe _ rfl reached resting start before
    have there := run_append reached (guarded_run before)
    have uploads : Uploaded middle.shared thread original shards :=
      run_life (fun _ _ _ _ life => life_log life) reached (guarded_run before) uploaded
    refine beside_reads (watched file bad faithful opening) wf there all run running ?_ advances
    have shelter := @sources_shelter platform _ request _ _ sources
    rw [← show copy.id = (watched file bad faithful opening).fileId from same.1] at shelter
    exact copy_reader shelter distinct mds positive size checksum codes same uploads
      sources.distinct sources.enough

theorem repair_beside {platform : Platform} {file : File} {bad : List Uuid}
    {before config : ServiceConfig} (repair : Repair platform file.id bad before config) :
    ∃ labels, Beside platform (watched file bad True before) before labels config := by
  obtain ⟨start, labels, begins, run⟩ := repair.ran
  refine ⟨_, run_cons ⟨begins, fun _ => ⟨rfl, rfl⟩⟩ (run_mono ?_ run)⟩
  rintro middle label after ⟨taken, still⟩
  refine ⟨taken, ?_⟩
  cases label with
  | act thread request answer =>
      obtain rfl : thread = .worker := of_decide_eq_true still
      trivial
  | env event =>
      cases event with
      | misreply _ _ => cases still
      | damage _ _ _ => cases still
      | _ => exact fun _ => ⟨trivial, by simp⟩
  | start thread job => cases still
  | _ => trivial

theorem repairFile_preserves_moved : ∃ file config data,
    Preserved plain (watched file [2] True uploadedOnce) config ∧
    config.shared.db.shards.map (·.id) = [4, 3] ∧
    Readable plain (watched file [2] True uploadedOnce) uploadedOnce file data := by
  have stored : uploadedOnce.shared.db.files.any (fun file =>
      decide (file.id = 1 ∧ file.status = .available ∧ file.dataShards = 1)) = true := by
    decide +kernel
  obtain ⟨file, present, facts⟩ := List.any_eq_true.mp stored
  obtain ⟨named, available, one⟩ := of_decide_eq_true facts
  obtain ⟨config, repair, rows⟩ := repair_driven (repairedUpTo ++ prompts .worker 4)
    (fun config => decide (config.shared.db.shards.map (·.id) = [4, 3])) (by decide +kernel)
  rw [← named] at repair
  obtain ⟨clock, earlier, reached⟩ := repair.reached
  obtain ⟨labels, run⟩ := repair_beside repair
  obtain ⟨preserved, readers⟩ := repairFile_preserves plain clock earlier uploadedOnce reached
    (fun job rest running => by
      have idle := uploadedOnce_fresh
      rw [running] at idle
      exact idle) file present available [2] True
  obtain ⟨data, -, readable⟩ := readers plain_sha256Hex (by rw [one]; exact replication_mds _)
  exact ⟨file, config, data, preserved labels config run, of_decide_eq_true rows, readable⟩

end SecureFileSystem.RepairReaders
