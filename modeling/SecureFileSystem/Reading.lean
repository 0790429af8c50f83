import SecureFileSystem.Handlers
import SecureFileSystem.Wire

/-!
Reading a file back. `attempt` runs a program against fixed rows and fixed
replies of the nodes; under enough intact replies the fallback loop collects
`k` genuine blocks, whatever the other nodes answer.
-/

namespace SecureFileSystem.Reading

open Base Database Fleet Session Program Transition Erasure Files Service Wire

/-- A query's rows, and what each node answers to a request. -/
structure World where
  rows : (Db → Shard → StorageNode → Bool) → List (Shard × StorageNode)
  reply : Uuid → NodeRequest → Reply

/-- A program that queries the join and talks to nodes, on its own. `sent` holds
the requests so far; a handle is a position in it. -/
def attempt {Out : Type} (world : World) :
    List (Uuid × NodeRequest) → Async Out → Option (List (Uuid × NodeRequest) × Out)
  | sent, .ret out => some (sent, out)
  | sent, .op (.selectPlaced condition) next => attempt world sent (next (world.rows condition))
  | sent, .op (.send requests) next =>
      attempt world (sent ++ requests) (next (List.range' sent.length requests.length))
  | sent, .op (.await handles) next =>
      attempt world sent (next (handles.map fun handle =>
        (sent[handle]?).bind fun request => world.reply request.1 request.2))
  | _, .op _ _ => none

variable {Mid Out : Type} {world : World}

theorem attempt_bind (sent : List (Uuid × NodeRequest)) (first : Async Mid)
    (rest : Mid → Async Out) : attempt world sent (first.bind rest) =
      (attempt world sent first).bind fun done => attempt world done.1 (rest done.2) := by
  induction first generalizing sent with
  | ret out => rfl
  | op request next ih =>
      cases request with
      | selectPlaced condition => exact ih _ sent
      | send requests => exact ih _ _
      | await handles => exact ih _ sent
      | _ => rfl

def Settles (world : World) (prog : Async Out) (out : Out) : Prop :=
  ∀ sent, ∃ after, attempt world sent prog = some (after, out)

theorem settles_ret (out : Out) : Settles world (.ret out) out := fun sent => ⟨sent, rfl⟩

theorem settles_bind {first : Async Mid} {rest : Mid → Async Out} {mid : Mid} {out : Out}
    (head : Settles world first mid) (tail : Settles world (rest mid) out) :
    Settles world (first.bind rest) out := by
  intro sent
  obtain ⟨between, first_done⟩ := head sent
  obtain ⟨after, rest_done⟩ := tail between
  exact ⟨after, by rw [attempt_bind, first_done, Option.bind_some, rest_done]⟩

theorem settles_select (condition : Db → Shard → StorageNode → Bool) :
    Settles world (selectPlaced condition) (world.rows condition) := fun sent => ⟨sent, rfl⟩

theorem attempt_gather (sent requests : List (Uuid × NodeRequest)) :
    attempt world sent (gather requests) =
      some (sent ++ requests, requests.map fun request => world.reply request.1 request.2) := by
  change some (sent ++ requests, _) = _
  congr 2
  apply List.ext_getElem
  · simp
  · intro index left right
    simp at left
    simp [left]

theorem settles_gather (requests : List (Uuid × NodeRequest)) :
    Settles world (gather requests)
      (requests.map fun request => world.reply request.1 request.2) :=
  fun sent => ⟨sent ++ requests, attempt_gather sent requests⟩

theorem zip_answers (batch : List (Shard × StorageNode)) :
    batch.zip ((getRequests batch).map fun request => world.reply request.1 request.2) =
      batch.map fun row => (row, world.reply row.2.id (.get row.1.id)) := by
  induction batch with
  | nil => rfl
  | cons row rest ih => exact congrArg _ ih

def rounds (platform : Platform) (world : World) (k : Nat) :
    Nat → Blocks → List (Shard × StorageNode) → Blocks
  | 0, collected, _ => collected
  | fuel + 1, collected, remaining =>
      if collected.length < k ∧ remaining ≠ [] then
        let batch := remaining.take (k - collected.length)
        rounds platform world k fuel
          (collect platform collected
            (batch.map fun row => (row, world.reply row.2.id (.get row.1.id))))
          (remaining.drop (k - collected.length))
      else collected

theorem settles_rounds (platform : Platform) (k fuel : Nat) (collected : Blocks)
    (remaining : List (Shard × StorageNode)) :
    Settles world (fetchRounds platform k fuel collected remaining)
      (rounds platform world k fuel collected remaining) := by
  induction fuel generalizing collected remaining with
  | zero => exact settles_ret collected
  | succ fuel ih =>
      unfold fetchRounds rounds
      split
      · refine settles_bind (settles_gather _) ?_
        rw [zip_answers]
        exact ih _ _
      · exact settles_ret collected

def intact (platform : Platform) (world : World) (data : Bytes) (k m : Nat)
    (row : Shard × StorageNode) : Bool :=
  match getShard (world.reply row.2.id (.get row.1.id)) with
  | .ok block => decide (block = codeBlock platform.zfec data k m row.1.shardIndex)
  | .error _ => false

/-- Rows of an encoded file: distinct indices, and the checksums of its blocks. -/
structure Encodes (platform : Platform) (data : Bytes) (k m : Nat)
    (rows : List (Shard × StorageNode)) : Prop where
  indices : (rows.map fun row => row.1.shardIndex).Nodup
  bound : ∀ row ∈ rows, row.1.shardIndex < k + m
  checksum : ∀ row ∈ rows, row.1.checksumSha256 =
    platform.sha256Hex (codeBlock platform.zfec data k m row.1.shardIndex)

theorem encodes_sublist {platform : Platform} {data : Bytes} {k m : Nat}
    {rows fewer : List (Shard × StorageNode)} (encodes : Encodes platform data k m rows)
    (sublist : fewer.Sublist rows) : Encodes platform data k m fewer :=
  ⟨encodes.indices.sublist (sublist.map _),
    fun row member => encodes.bound row (sublist.subset member),
    fun row member => encodes.checksum row (sublist.subset member)⟩

section Loop
variable {platform : Platform} {data : Bytes} {k m : Nat}

theorem set_new {blocks : Blocks} {index : Nat} (block : Bytes)
    (fresh : index ∉ blocks.map (·.1)) : blocks.set index block = blocks ++ [(index, block)] := by
  have kept : blocks.filter (·.1 ≠ index) = blocks := by
    refine List.filter_eq_self.mpr fun entry member => ?_
    have other : entry.1 ≠ index := fun same => fresh (same ▸ List.mem_map_of_mem member)
    simpa using other
  rw [Blocks.set, kept]

/-- What reading a batch makes of the block map: it stays genuine, gains a block
for every intact reply, and has no index from elsewhere. -/
structure Grows (platform : Platform) (world : World) (data : Bytes) (k m : Nat)
    (collected : Blocks) (batch : List (Shard × StorageNode)) (after : Blocks) : Prop where
  genuine : Genuine platform.zfec data k m after
  counted : collected.length + batch.countP (intact platform world data k m) ≤ after.length
  sources : ∀ index ∈ after.map (·.1), index ∈ collected.map (·.1) ∨
    index ∈ batch.map fun row => row.1.shardIndex

theorem grows_skip {collected after : Blocks} {row : Shard × StorageNode}
    {rest : List (Shard × StorageNode)} (broken : intact platform world data k m row = false)
    (grows : Grows platform world data k m collected rest after) :
    Grows platform world data k m collected (row :: rest) after := by
  refine ⟨grows.genuine, ?_, fun index member => ?_⟩
  · simpa [List.countP_cons, broken] using grows.counted
  · exact (grows.sources index member).imp id (List.mem_cons_of_mem _)

theorem grows_take {collected after : Blocks} {row : Shard × StorageNode} {block : Bytes}
    {rest : List (Shard × StorageNode)}
    (grows : Grows platform world data k m (collected ++ [(row.1.shardIndex, block)]) rest after) :
    Grows platform world data k m collected (row :: rest) after := by
  refine ⟨grows.genuine, ?_, fun index member => ?_⟩
  · have counted := grows.counted
    rw [List.length_append, List.length_singleton] at counted
    rw [List.countP_cons]
    split <;> omega
  · rcases grows.sources index member with old | later
    · rw [List.map_append, List.mem_append] at old
      refine old.imp id fun new => ?_
      have same : index = row.1.shardIndex := by simpa using new
      rw [same]
      exact List.mem_cons_self
    · exact Or.inr (List.mem_cons_of_mem _ later)

theorem genuine_append {collected : Blocks} {index : Nat} {block : Bytes}
    (genuine : Genuine platform.zfec data k m collected) (fresh : index ∉ collected.map (·.1))
    (bound : index < k + m) (real : block = codeBlock platform.zfec data k m index) :
    Genuine platform.zfec data k m (collected ++ [(index, block)]) := by
  refine ⟨?_, fun entry member => ?_⟩
  · rw [List.map_append]
    exact List.Nodup.append genuine.1 (List.nodup_singleton _) (by simpa using fresh)
  · rcases List.mem_append.mp member with old | new
    · exact genuine.2 entry old
    · rw [List.mem_singleton.mp new]
      exact ⟨bound, real⟩

/-- A block with the checksum of a row is that row's block, so the map stays
genuine, and no intact reply is wasted. -/
theorem collect_grows (distinct : Function.Injective platform.sha256Hex) (collected : Blocks)
    (batch : List (Shard × StorageNode)) (encodes : Encodes platform data k m batch)
    (genuine : Genuine platform.zfec data k m collected)
    (fresh : ∀ row ∈ batch, row.1.shardIndex ∉ collected.map (·.1)) :
    Grows platform world data k m collected batch (collect platform collected
      (batch.map fun row => (row, world.reply row.2.id (.get row.1.id)))) := by
  induction batch generalizing collected with
  | nil => exact ⟨genuine, Nat.le_refl _, fun _ member => Or.inl member⟩
  | cons row rest ih =>
      have here := encodes.checksum row List.mem_cons_self
      have tail := encodes_sublist encodes (List.sublist_cons_self row rest)
      have apart := encodes.indices
      rw [List.map_cons, List.nodup_cons] at apart
      have unread := ih collected tail genuine
        fun other member => fresh other (List.mem_cons_of_mem _ member)
      simp only [List.map_cons, collect]
      cases got : getShard (world.reply row.2.id (.get row.1.id)) with
      | error error => exact grows_skip (by simp [intact, got]) unread
      | ok block =>
          simp only
          split
          · rename_i mismatch
            refine grows_skip ?_ unread
            simp only [intact, got, decide_eq_false_iff_not]
            rintro rfl
            exact mismatch here.symm
          · rename_i same
            have real : block = codeBlock platform.zfec data k m row.1.shardIndex :=
              distinct ((Decidable.of_not_not same).trans here)
            have absent := fresh row List.mem_cons_self
            rw [set_new block absent]
            refine grows_take (ih _ tail (genuine_append genuine absent
              (encodes.bound row List.mem_cons_self) real) fun other member => ?_)
            rw [List.map_append, List.mem_append, not_or]
            refine ⟨fresh other (List.mem_cons_of_mem _ member), fun hit => apart.1 ?_⟩
            have clash : other.1.shardIndex = row.1.shardIndex := by simpa using hit
            exact clash ▸ List.mem_map_of_mem member

theorem replies_world (batch : List (Shard × StorageNode)) (replies : List Reply)
    (length : replies.length = batch.length) (ids : (batch.map (·.1.id)).Nodup) :
    ∃ world : World, batch.zip replies =
      batch.map fun row => (row, world.reply row.2.id (.get row.1.id)) := by
  induction batch generalizing replies with
  | nil => exact ⟨⟨fun _ => [], fun _ _ => none⟩, rfl⟩
  | cons row rest ih =>
      cases replies with
      | nil => cases length
      | cons reply others =>
          rw [List.map_cons, List.nodup_cons] at ids
          obtain ⟨world, same⟩ := ih others (Nat.succ.inj length) ids.2
          refine ⟨⟨world.rows, fun node request =>
            if request = .get row.1.id then reply else world.reply node request⟩, ?_⟩
          rw [List.zip_cons_cons, List.map_cons, same]
          dsimp only
          rw [if_pos rfl]
          congr 1
          apply List.map_congr_left
          intro other member
          have apart : other.1.id ≠ row.1.id := by
            intro clash
            exact ids.1 (clash ▸ List.mem_map_of_mem member)
          rw [if_neg (by simpa using apart)]

theorem grows_further {world : World} {collected after : Blocks}
    {batch later : List (Shard × StorageNode)}
    (encodes : Encodes platform data k m (batch ++ later))
    (grows : Grows platform world data k m collected batch after)
    (fresh : ∀ row ∈ batch ++ later, row.1.shardIndex ∉ collected.map (·.1)) :
    ∀ row ∈ later, row.1.shardIndex ∉ after.map (·.1) := by
  have apart := encodes.indices
  rw [List.map_append] at apart
  intro row member taken
  rcases grows.sources _ taken with old | new
  · exact fresh row (List.mem_append_right _ member) old
  · exact List.disjoint_of_nodup_append apart new (List.mem_map_of_mem member)

/-- The loop ends with `k` genuine blocks when enough of the rows are intact. -/
theorem rounds_enough (world : World) (distinct : Function.Injective platform.sha256Hex)
    (fuel : Nat) (collected : Blocks) (remaining : List (Shard × StorageNode))
    (encodes : Encodes platform data k m remaining)
    (genuine : Genuine platform.zfec data k m collected)
    (fresh : ∀ row ∈ remaining, row.1.shardIndex ∉ collected.map (·.1))
    (fuelled : remaining.length ≤ fuel)
    (enough : k ≤ collected.length + remaining.countP (intact platform world data k m)) :
    let blocks := rounds platform world k fuel collected remaining
    Genuine platform.zfec data k m blocks ∧ k ≤ blocks.length := by
  induction fuel generalizing collected remaining with
  | zero =>
      have empty : remaining = [] := List.length_eq_zero_iff.mp (Nat.le_zero.mp fuelled)
      subst empty
      rw [List.countP_nil] at enough
      exact ⟨genuine, enough⟩
  | succ fuel ih =>
      unfold rounds
      split
      · rename_i going
        obtain ⟨short, more⟩ := going
        have whole := List.take_append_drop (k - collected.length) remaining
        have shorter : (remaining.drop (k - collected.length)).length ≤ fuel := by
          have some := List.length_pos_iff.mpr more
          rw [List.length_drop]
          omega
        generalize remaining.take (k - collected.length) = batch at whole ⊢
        generalize remaining.drop (k - collected.length) = later at whole shorter ⊢
        subst whole
        have grows : Grows platform world data k m collected batch _ :=
          collect_grows distinct collected batch
            (encodes_sublist encodes (List.sublist_append_left _ _)) genuine
            fun row member => fresh row (List.mem_append_left _ member)
        apply ih _ later (encodes_sublist encodes (List.sublist_append_right _ _)) grows.genuine
          (grows_further encodes grows fresh) shorter
        have counted := grows.counted
        rw [List.countP_append] at enough
        omega
      · rename_i stop
        refine ⟨genuine, ?_⟩
        rw [not_and_or, Nat.not_lt, Decidable.not_not] at stop
        rcases stop with full | empty
        · exact full
        · rw [empty, List.countP_nil] at enough
          exact enough

theorem encodes_perm {rows order : List (Shard × StorageNode)}
    (encodes : Encodes platform data k m rows) (same : order.Perm rows) :
    Encodes platform data k m order :=
  ⟨(same.map _).nodup_iff.mpr encodes.indices,
    fun row member => encodes.bound row (same.mem_iff.mp member),
    fun row member => encodes.checksum row (same.mem_iff.mp member)⟩

def readable (file : File) (_ : Db) (shard : Shard) (node : StorageNode) : Bool :=
  shard.fileId = file.id && node.status ≠ .decommissioned

instance : Std.Total fun left right : Shard × StorageNode => candidateBefore left right = true where
  total left right := by
    simp only [candidateBefore, Bool.or_eq_true, Bool.and_eq_true, decide_eq_true_eq]
    omega

instance : IsTrans (Shard × StorageNode) fun left right => candidateBefore left right = true where
  trans left middle right := by
    simp only [candidateBefore, Bool.or_eq_true, Bool.and_eq_true, decide_eq_true_eq]
    omega

theorem attempt_candidates (world : World) (file : File) :
    ∃ order : List (Shard × StorageNode), order.Perm (world.rows (readable file)) ∧
      order.Pairwise (fun left right => candidateBefore left right = true) ∧
      ∀ sent, attempt world sent (shardCandidates file [] []) = some (sent, order) := by
  have fresh : (world.rows (readable file)).map
      (fun row => (row.1, identityMap [] row.2)) = world.rows (readable file) := by
    simp [identityMap]
  refine ⟨(((world.rows (readable file)).map fun row => (row.1, identityMap [] row.2)).filter
    fun candidate => candidate.1.id ∉ []).insertionSort fun left right =>
      candidateBefore left right, ?_, List.pairwise_insertionSort _ _, fun sent => rfl⟩
  refine (List.perm_insertionSort _ _).trans ?_
  rw [fresh, List.filter_eq_self.mpr (by simp)]

theorem candidates_settle (world : World) (file : File) : ∃ order : List (Shard × StorageNode),
    order.Perm (world.rows (readable file)) ∧ Settles world (shardCandidates file [] []) order := by
  obtain ⟨order, same, -, settled⟩ := attempt_candidates world file
  exact ⟨order, same, fun sent => ⟨sent, settled sent⟩⟩

/-- With `k` intact rows the file is read back, whatever the other nodes say. -/
theorem readFile_settles (distinct : Function.Injective platform.sha256Hex)
    (mds : Mds platform.zfec k (k + m)) (positive : 1 ≤ k) (file : File)
    (dataShards : file.dataShards = k) (parityShards : file.parityShards = m)
    (size : file.sizeBytes = data.length) (checksum : file.checksumSha256 = platform.sha256Hex data)
    (encodes : Encodes platform data k m (world.rows (readable file)))
    (enough : k ≤ (world.rows (readable file)).countP (intact platform world data k m)) :
    Settles world (readFile platform file) (.ok data) := by
  subst dataShards parityShards
  obtain ⟨order, same, candidates⟩ := candidates_settle world file
  refine settles_bind candidates (settles_bind (settles_rounds _ _ _ _ _) ?_)
  obtain ⟨genuine, count⟩ := rounds_enough world distinct order.length [] order
    (encodes_perm encodes same) ⟨List.nodup_nil, nofun⟩ (fun _ _ => List.not_mem_nil)
    (Nat.le_refl _) (by rw [same.countP_eq]; simpa using enough)
  rw [if_neg (Nat.not_lt.mpr count), size, decode_genuine mds positive genuine count]
  simp only [checksum, ne_eq, not_true_eq_false, if_false]
  exact settles_ret _

end Loop

section Pool
variable {platform : Platform} {reader : Tid} {job : Job}

/-- Steps of the reader and of the environment in which queries return the rows
of `world` and clients are told what its nodes answer. -/
def Alone (world : World) (reader : Tid) (config : ServiceConfig) : ServiceLabel → Prop
  | .act thread (.selectPlaced condition) rows => thread = reader ∧ rows = world.rows condition
  | .act thread (.await handles) replies => thread = reader ∧
      replies = handles.map fun handle => ((wire config.shared)[handle]?).bind fun request =>
        world.reply request.2.1 request.2.2
  | .act thread _ _ => thread = reader
  | .env _ => True
  | _ => False

def Bound (world : World) (reader : Tid) (job : Job) (next : Out → Async Outcome) (out : Out)
    (config : ServiceConfig) : Prop :=
  ∃ part after, config.threads reader = .running job (part.bind next) ∧
    attempt world ((wire config.shared).map Prod.snd) part = some (after, out)

theorem bound_step {next : Out → Async Outcome} {out : Out} {before after : ServiceConfig}
    {label : ServiceLabel}
    (taken : Guarded (Alone world reader) (Step (service platform)) before label after)
    (bound : Bound world reader job next out before) :
    Bound world reader job next out after ∨
      before.threads reader = .running job (next out) := by
  obtain ⟨part, final, running, ends⟩ := bound
  cases part with
  | ret here =>
      cases ends
      exact Or.inr running
  | op asked resume =>
      left
      -- Only the reader acts, and its answers are those of the fixed world.
      obtain ⟨step, alone⟩ := taken
      cases step with
      | start _ _ => exact alone.elim
      | fail _ => exact alone.elim
      | finish _ => exact alone.elim
      | @env event shared done =>
          refine ⟨.op asked resume, final, running, ?_⟩
          rw [environment_wire event done]
          exact ends
      | @act thread acting request more answer shared at_op done =>
          have mine : thread = reader := by
            cases request <;> first | exact alone.1 | exact alone
          subst mine
          rw [running] at at_op
          cases at_op
          have grown := exec_wire done
          refine ⟨resume answer, final, by simp [Config.set], ?_⟩
          change attempt world ((wire shared).map Prod.snd) (resume answer) = _
          rw [grown]
          cases asked with
          | selectPlaced condition =>
              rw [alone.2]
              simpa [sends, attempt] using ends
          | send requests =>
              obtain ⟨handles, -⟩ := Option.ite_none_right_eq_some.mp done
              have count : before.shared.flights.length = (wire before.shared).length := by
                simp [wire]
              rw [handles, count]
              simpa [sends, attempt, Function.comp_def] using ends
          | await handles =>
              rw [alone.2]
              simpa [sends, attempt, List.getElem?_map, Option.bind_map, Function.comp_def]
                using ends
          | _ => cases ends

/-- `attempt` is what the reader does in the service, alone with such nodes: it
is still at it, or has gone on from the result. -/
theorem attempt_run {next : Out → Async Outcome} {out : Out} {before after : ServiceConfig}
    {labels : List ServiceLabel}
    (run : Run (Guarded (Alone world reader) (Step (service platform))) before labels after)
    {prog : Async Out} (begins : before.threads reader = .running job (prog.bind next))
    (settles : Settles world prog out) :
    Bound world reader job next out after ∨ ∃ first second middle, labels = first ++ second ∧
      Run (Guarded (Alone world reader) (Step (service platform))) before first middle ∧
      middle.threads reader = .running job (next out) := by
  obtain ⟨final, ends⟩ := settles ((wire before.shared).map Prod.snd)
  induction run with
  | refl => exact Or.inl ⟨prog, final, begins, ends⟩
  | @next middle last labels label earlier taken ih =>
      rcases ih with bound | ⟨first, second, arrived, rfl, there, running⟩
      · rcases bound_step taken bound with further | here
        · exact Or.inl further
        · exact Or.inr ⟨labels, [label], middle, rfl, earlier, here⟩
      · exact Or.inr ⟨first, second ++ [label], arrived, by simp, there, running⟩

end Pool

end SecureFileSystem.Reading
