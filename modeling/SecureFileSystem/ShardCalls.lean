import SecureFileSystem.ShardStore

/-!
The three calls of the shard store keep the contract of the directory, each
from its first request to its result, while other calls run in between.
-/

namespace SecureFileSystem.ShardCalls

open Base Program Storage Transition RelyGuarantee WriteOnce ShardStore

variable {sha256 : Bytes → Bytes} {levels : Nat} {Called : Nat → Call → Prop}

structure Done (sha256 : Bytes → Bytes) (caller : Nat) (call : Call) (out : Outcome) (disk : Disk) :
    Prop where
  clear : Clear caller disk
  logged : ∃ access, Logged caller access disk ∧ Answers sha256 call out (event access)
  lasting : ∀ id data digest, call = .write id data → out = .wrote (.ok digest) →
    Lasting caller id (shardFile sha256 data) disk

def contract (sha256 : Bytes → Bytes) (levels : Nat) (Called : Nat → Call → Prop) :
    Contract Disk Nat Call Crash Op Res Outcome where
  inv := Sound sha256 levels
  rely := fun thread before after =>
    ∃ other, other ≠ thread ∧ Move sha256 Called other before after
  guar := Move sha256 Called
  post := Done sha256
  allowed := fun disk label =>
    match label with
    | .start thread call => Called thread call ∧ Untouched thread disk
    | .env _ => False
    | _ => True

structure Holding (caller tmp : Nat) (inode : Inode) (disk : Disk) : Prop where
  held : disk.files[tmp]? = some inode
  own : inode.creator = caller
  temp : disk.entries (.temp tmp) = some tmp
  only : ∀ (file : Nat) other, disk.files[file]? = some other → other.creator = caller → file = tmp

theorem untouched_stable (caller : Nat) :
    Stable (contract sha256 levels Called) caller (Untouched caller) := by
  rintro before after - - ⟨other, apart, move⟩ untouched
  have effect := move_effect move
  constructor
  · rcases effect.log with same | ⟨access, same, -⟩
    · rw [same]
      exact untouched.unlogged
    · rw [same, List.map_append, List.mem_append, not_or]
      exact ⟨untouched.unlogged, by simpa using Ne.symm apart⟩
  · intro file inode held
    rcases effect.created file inode held with there | foreign
    · exact untouched.fileless file inode there
    · rw [foreign]
      exact apart

theorem unlogged_stable (caller : Nat) :
    Stable (contract sha256 levels Called) caller fun disk => caller ∉ disk.log.map (·.1) := by
  rintro before after - - ⟨other, apart, move⟩ unlogged
  rcases (move_effect move).log with same | ⟨access, same, -⟩
  · rwa [same]
  · rw [same, List.map_append, List.mem_append, not_or]
    exact ⟨unlogged, by simpa using Ne.symm apart⟩

theorem made_stable (caller depth : Nat) :
    Stable (contract sha256 levels Called) caller fun disk => depth ≤ disk.made := by
  rintro before after - - ⟨other, -, move⟩ there
  exact Nat.le_trans there (move_effect move).made

theorem holding_stable (caller tmp : Nat) (inode : Inode) :
    Stable (contract sha256 levels Called) caller (Holding caller tmp inode) := by
  rintro before after - - ⟨other, apart, move⟩ holding
  have effect := move_effect move
  have still : after.files[tmp]? = some inode := by
    rcases effect.files tmp inode holding.held with same | ⟨foreign, -⟩
    · exact same
    · exact absurd (foreign.symm.trans holding.own) apart
  constructor
  · exact still
  · exact holding.own
  · rcases effect.temps tmp with same | ⟨found, held, foreign⟩
    · rw [same, holding.temp]
    · obtain rfl := Option.some.inj (still.symm.trans held)
      exact absurd (foreign.symm.trans holding.own) apart
  · intro file found held own
    rcases effect.created file found held with there | foreign
    · exact holding.only file found there own
    · exact absurd (foreign.symm.trans own) apart

theorem clear_stable (caller : Nat) :
    Stable (contract sha256 levels Called) caller (Clear caller) := by
  rintro before after - - ⟨other, apart, move⟩ clear file inode held own
  have effect := move_effect move
  have there : before.files[file]? = some inode := by
    rcases effect.created file inode held with there | foreign
    · exact there
    · exact absurd (foreign.symm.trans own) apart
  rcases effect.temps file with same | ⟨found, again, foreign⟩
  · rw [same]
    exact clear file inode there own
  · obtain rfl := Option.some.inj (held.symm.trans again)
    exact absurd (foreign.symm.trans own) apart

theorem logged_kept {mover caller : Nat} {access : Access} {before after : Disk}
    (effect : Effect mover before after) (logged : Logged caller access before) :
    Logged caller access after := by
  unfold Logged at logged ⊢
  rcases effect.log with same | ⟨_, same, -⟩
  · rwa [same]
  · rw [same]
    exact List.mem_append_left _ logged

theorem logged_stable (caller : Nat) (access : Access) :
    Stable (contract sha256 levels Called) caller (Logged caller access) := by
  rintro before after - - ⟨other, -, move⟩ logged
  exact logged_kept (move_effect move) logged

theorem shard_kept {mover : Nat} {id : Uuid} {content : Bytes} {before after : Disk}
    (sound : Sound sha256 levels before) (effect : Effect mover before after)
    (stored : before.shard id = some content) :
    after.shard id = some content ∧
        (before.unsettled (.shard id) = [] → after.unsettled (.shard id) = []) ∨
      after.log = before.log ++ [(mover, .unlink id true)] := by
  obtain ⟨file, entry, bytes⟩ := Option.map_eq_some_iff.mp stored
  obtain ⟨data, inode, held, synced, -⟩ := sound.stored id file entry
  rcases effect.shards id file entry with ⟨same, settled⟩ | removed
  · left
    have still : after.files[file]? = some inode := by
      rcases effect.files file inode held with same | ⟨-, unsynced, -⟩
      · exact same
      · rw [synced] at unsynced
        cases unsynced
    refine ⟨?_, settled⟩
    rw [Disk.shard, same, Option.map_some, ← bytes, Disk.content, Disk.content, held, still]
  · exact .inr removed

theorem log_grows {mover : Nat} {before after : Disk} (effect : Effect mover before after) :
    ∃ more, after.log = before.log ++ more := by
  rcases effect.log with same | ⟨access, same, -⟩
  · exact ⟨[], by rw [same, List.append_nil]⟩
  · exact ⟨[_], same⟩

theorem caller_kept {mover caller : Nat} {before after : Disk} (effect : Effect mover before after)
    (logged : caller ∈ before.log.map (·.1)) : caller ∈ after.log.map (·.1) := by
  obtain ⟨more, grown⟩ := log_grows effect
  rw [grown, List.map_append]
  exact List.mem_append_left _ logged

theorem removed_kept {mover caller : Nat} {id : Uuid} {before after : Disk}
    (effect : Effect mover before after) (removed : Removed caller id before) :
    Removed caller id after := by
  obtain ⟨more, grown⟩ := log_grows effect
  obtain ⟨older, newer, remover, log, member, gone⟩ := removed
  refine ⟨older, newer ++ more, remover, ?_, member, List.mem_append_left _ gone⟩
  rw [grown, log, List.append_assoc]

theorem placed_kept {mover caller : Nat} {id : Uuid} {content : Bytes} {before after : Disk}
    (sound : Sound sha256 levels before) (effect : Effect mover before after)
    (placed : Placed caller id content before) : Placed caller id content after := by
  constructor
  · exact caller_kept effect placed.1
  · rcases placed.2 with stored | removed
    · rcases shard_kept sound effect stored with ⟨same, -⟩ | removed
      · exact .inl same
      · exact .inr ⟨before.log, [_], mover, removed, placed.1, by simp⟩
    · exact .inr (removed_kept effect removed)

theorem placed_stable (caller : Nat) (id : Uuid) (content : Bytes) :
    Stable (contract sha256 levels Called) caller (Placed caller id content) := by
  rintro before after sound - ⟨other, -, move⟩ placed
  exact placed_kept sound (move_effect move) placed

theorem lasting_stable (caller : Nat) (id : Uuid) (content : Bytes) :
    Stable (contract sha256 levels Called) caller (Lasting caller id content) := by
  rintro before after sound - ⟨other, -, move⟩ ⟨logged, lasting⟩
  have effect := move_effect move
  constructor
  · exact caller_kept effect logged
  · rcases lasting with ⟨stored, settled⟩ | removed
    · rcases shard_kept sound effect stored with ⟨same, still⟩ | removed
      · exact .inl ⟨same, still settled⟩
      · exact .inr ⟨before.log, [_], other, removed, logged, by simp⟩
    · exact .inr (removed_kept effect removed)

theorem exec_perform {sha256 : Bytes → Bytes} {levels caller : Nat} {request : Op}
    {answer : Res request} {before after : Disk}
    (done : (node sha256 levels).exec caller before request answer = some after) :
    answer = (before.perform caller request).1 ∧ after = (before.perform caller request).2 := by
  simp only [node, exec, Option.ite_none_right_eq_some, Option.some.injEq] at done
  exact ⟨done.1, done.2.symm⟩

theorem safe_call {Out : Type} {caller : Nat} {holds : Disk → Prop}
    (stable : Stable (contract sha256 levels Called) caller holds) {request : Op}
    {next : Res request → Calls Out} {post : Out → Disk → Prop} {disk : Disk} (start : holds disk)
    (step : ∀ later, Sound sha256 levels later → holds later →
      Move sha256 Called caller later (later.perform caller request).2 ∧
        Safe (node sha256 levels) (contract sha256 levels Called) caller post
          (next (later.perform caller request).1) (later.perform caller request).2) :
    Safe (node sha256 levels) (contract sha256 levels Called) caller post (.op request next) disk := by
  refine safe_op stable start fun later answer after sound held done _ => ?_
  obtain ⟨rfl, rfl⟩ := exec_perform done
  exact step later sound held

theorem safe_mkdir (caller depth : Nat) (inside : depth ≤ levels) (disk : Disk)
    (untouched : Untouched caller disk) :
    Safe (node sha256 levels) (contract sha256 levels Called) caller
      (fun _ later => Untouched caller later ∧ depth ≤ later.made) (mkdirParents depth) disk := by
  -- one `mkdir` of a component whose parents may or may not exist
  have once : ∀ (later : Disk) (depth : Nat), Sound sha256 levels later → depth ≤ levels →
      Move sha256 Called caller later (later.perform caller (.mkdir depth)).2 ∧
        (Untouched caller later → Untouched caller (later.perform caller (.mkdir depth)).2) ∧
        ((later.perform caller (.mkdir depth)).1 = .error .fileNotFound ∨
          depth ≤ (later.perform caller (.mkdir depth)).2.made) ∧
        (depth ≤ later.made + 1 → depth ≤ (later.perform caller (.mkdir depth)).2.made) := by
    intro later depth sound within
    simp only [Disk.perform]
    by_cases there : depth ≤ later.made
    · rw [if_pos there]
      exact ⟨.mkdir later.made (Nat.le_refl _) (sound.depth ▸ sound.made) rfl, id,
        .inr there, fun _ => there⟩
    · rw [if_neg there]
      by_cases next : depth = later.made + 1
      · rw [if_pos next]
        refine ⟨.mkdir depth (by omega) (sound.depth ▸ within) rfl, ?_, .inr (Nat.le_refl _),
          fun _ => Nat.le_refl _⟩
        exact fun kept => ⟨kept.unlogged, kept.fileless⟩
      · rw [if_neg next]
        exact ⟨.mkdir later.made (Nat.le_refl _) (sound.depth ▸ sound.made) rfl, id,
          .inl rfl, fun _ => by omega⟩
  induction depth generalizing disk with
  | zero =>
      exact safe_ret (untouched_stable caller) untouched fun _ _ kept => ⟨kept, Nat.zero_le _⟩
  | succ depth ih =>
      refine safe_call (untouched_stable caller) untouched fun later sound kept => ?_
      obtain ⟨move, keeps, outcome, -⟩ := once later (depth + 1) sound inside
      refine ⟨move, ?_⟩
      have there : depth + 1 ≤ (later.perform caller (.mkdir (depth + 1))).2.made →
          Safe (node sha256 levels) (contract sha256 levels Called) caller
            (fun _ later => Untouched caller later ∧ depth + 1 ≤ later.made) (.ret ())
            (later.perform caller (.mkdir (depth + 1))).2 := by
        intro made
        exact safe_ret (stable_and (untouched_stable caller) (made_stable caller (depth + 1)))
          ⟨keeps kept, made⟩ fun _ _ both => both
      generalize answered : (later.perform caller (.mkdir (depth + 1))).1 = answer at outcome ⊢
      cases answer with
      | ok _ =>
          rcases outcome with missing | made
          · cases missing
          · exact there made
      | error failure =>
        cases failure with
        | fileExists =>
          rcases outcome with missing | made
          · cases missing
          · exact there made
        | fileNotFound =>
          change Safe _ _ _ _ ((mkdirParents depth).bind fun _ =>
            (mkdir (depth + 1)).bind fun _ => .ret ()) _
          refine safe_bind (ih (Nat.le_of_succ_le inside) _ (keeps kept)) ?_
          rintro - middle - ⟨still, parents⟩
          rw [mkdir, Prog.perform_bind]
          refine safe_call (stable_and (untouched_stable caller) (made_stable caller depth))
            ⟨still, parents⟩ fun last sound both => ?_
          obtain ⟨move, keeps, -, makes⟩ := once last (depth + 1) sound inside
          refine ⟨move, safe_ret
            (stable_and (untouched_stable caller) (made_stable caller (depth + 1))) ?_
            fun _ _ both => both⟩
          exact ⟨keeps both.1, makes (by have := both.2; omega)⟩

theorem content_held {disk : Disk} {file : Nat} {inode : Inode}
    (held : disk.files[file]? = some inode) : disk.content file = inode.content := by
  rw [Disk.content, held, Option.map_some, Option.getD_some]

theorem changed {disk : Disk} {file : Nat} {inode : Inode} (held : disk.files[file]? = some inode)
    (update : Inode → Inode) :
    disk.change file update = { disk with files := disk.files.set file (update inode) } := by
  have : Inhabited Inode := ⟨inode⟩
  rw [Disk.change, List.modify_eq_set, held, Option.getD_some]

theorem created_holding {caller : Nat} {disk : Disk} (untouched : Untouched caller disk) :
    Holding caller disk.files.length ⟨[], false, caller⟩ (Disk.enter
      { disk with files := disk.files ++ [⟨[], false, caller⟩] }
      (.temp disk.files.length) (some disk.files.length)) where
  held := by simp [Disk.enter]
  own := rfl
  temp := Function.update_self _ _ _
  only file other held own := by
    have inside := (List.getElem?_eq_some_iff.mp held).1
    by_contra apart
    simp only [Disk.enter, List.length_append, List.length_singleton] at inside
    have earlier : file < disk.files.length := by omega
    change (disk.files ++ _)[file]? = _ at held
    rw [List.getElem?_append_left earlier] at held
    exact untouched.fileless file other held own

theorem edited_holding {caller tmp : Nat} {inode changed : Inode} {disk : Disk}
    (holding : Holding caller tmp inode disk) (own : changed.creator = caller) :
    Holding caller tmp changed { disk with files := disk.files.set tmp changed } where
  held := by
    dsimp only
    rw [set_lookup disk.files tmp tmp inode changed holding.held, if_pos rfl]
  own := own
  temp := holding.temp
  only file other held mine := by
    dsimp only at held
    rw [set_lookup disk.files tmp file inode changed holding.held] at held
    by_cases same : file = tmp
    · exact same
    · rw [if_neg same] at held
      exact holding.only file other held mine

theorem linked_holding {caller tmp : Nat} {inode : Inode} {disk : Disk} (id : Uuid)
    (holding : Holding caller tmp inode disk) :
    Holding caller tmp inode (disk.perform caller (.link tmp id)).2 := by
  cases taken : disk.entries (.shard id) with
  | some source =>
      rw [link_taken caller holding.temp taken]
      exact ⟨holding.held, holding.own, holding.temp, holding.only⟩
  | none =>
      rw [link_free caller holding.temp taken]
      have apart : Name.temp tmp ≠ .shard id := nofun
      exact ⟨holding.held, holding.own,
        (enter_entries disk apart (some tmp)).trans holding.temp, holding.only⟩

theorem discarded_clear {caller tmp : Nat} {inode : Inode} {disk : Disk}
    (holding : Holding caller tmp inode disk) : Clear caller (disk.enter (.temp tmp) none) := by
  intro file other held own
  obtain rfl := holding.only file other held own
  exact Function.update_self _ _ _

/-- The temporary name goes, whatever `link` came to. -/
theorem safe_unlink {Out : Type} {caller tmp : Nat} {inode : Inode} {holds : Disk → Prop}
    (stable : Stable (contract sha256 levels Called) caller holds)
    (kept : ∀ before after, Sound sha256 levels before → Effect caller before after →
      holds before → holds after)
    {next : Except OsError Unit → Calls Out} {post : Out → Disk → Prop} {disk : Disk}
    (holding : Holding caller tmp inode disk) (start : holds disk)
    (rest : ∀ later, Clear caller later → holds later →
      Safe (node sha256 levels) (contract sha256 levels Called) caller post
        (next (.ok ())) later) :
    Safe (node sha256 levels) (contract sha256 levels Called) caller post
      ((unlink (.temp tmp)).bind next) disk := by
  rw [unlink, Prog.perform_bind]
  refine safe_call (stable_and (holding_stable caller tmp inode) stable) ⟨holding, start⟩ ?_
  rintro later sound ⟨holding, held⟩
  have done : later.perform caller (.unlink (.temp tmp)) =
      (.ok (), later.enter (.temp tmp) none) := by
    simp only [Disk.perform, holding.temp]
  rw [done]
  constructor
  · exact .discard tmp inode holding.held holding.own rfl
  · exact rest _ (discarded_clear holding)
      (kept later _ sound (discard_effect caller later tmp inode holding.held holding.own) held)

theorem event_link (digest : ∀ data, (sha256 data).length = digestSize) (id : Uuid) (data : Bytes)
    (linked : Bool) : event (.link id (shardFile sha256 data) linked) = .put id data linked := by
  rw [event, shardFile, ← digest data, List.drop_left]

/-- From the complete temporary file on: one `link` decides. -/
theorem safe_publish (digest : ∀ data, (sha256 data).length = digestSize) {caller tmp : Nat}
    {id : Uuid} {data : Bytes} (called : Called caller (.write id data)) {disk : Disk}
    (holding : Holding caller tmp ⟨shardFile sha256 data, true, caller⟩ disk)
    (unlogged : caller ∉ disk.log.map (·.1)) :
    Safe (node sha256 levels) (contract sha256 levels Called) caller
      (fun out => Done sha256 caller (.write id data) (.wrote out))
      (publish tmp id (sha256 data)) disk := by
  unfold publish
  rw [Prog.bind_eq, link, Prog.perform_bind]
  refine safe_call (stable_and (holding_stable caller tmp _) (unlogged_stable caller))
    ⟨holding, unlogged⟩ ?_
  rintro later sound ⟨holding, unlogged⟩
  have move : Move sha256 Called caller later (later.perform caller (.link tmp id)).2 :=
    .link tmp _ id data holding.held rfl rfl holding.temp called unlogged rfl
  have still := linked_holding id holding
  refine ⟨move, ?_⟩
  have content := content_held holding.held
  cases taken : later.entries (.shard id) with
  -- The name is taken: ours goes unpublished, and only its temporary name is removed.
  | some source =>
      rw [link_taken caller holding.temp taken, content] at still ⊢
      have logged : Logged caller (.link id (shardFile sha256 data) false)
          (later.record caller (.link id (shardFile sha256 data) false)) :=
        List.mem_append_right _ List.mem_cons_self
      refine safe_unlink (logged_stable caller _) (fun _ _ _ effect => logged_kept effect) still
        logged fun last clear logged => ?_
      refine safe_ret (stable_and (clear_stable caller) (logged_stable caller _)) ⟨clear, logged⟩ ?_
      rintro final - ⟨clear, logged⟩
      refine ⟨clear, ⟨_, logged, ?_⟩, fun _ _ _ _ failed => by cases failed⟩
      rw [event_link digest]
      exact ⟨rfl, rfl, rfl⟩
  | none =>
      rw [link_free caller holding.temp taken, content] at still ⊢
      dsimp only at still ⊢
      set linked := (later.enter (.shard id) (some tmp)).record caller
        (.link id (shardFile sha256 data) true) with linked_eq
      have logged : Logged caller (.link id (shardFile sha256 data) true) linked :=
        List.mem_append_right _ List.mem_cons_self
      have placed : Placed caller id (shardFile sha256 data) linked := by
        constructor
        · exact List.mem_map_of_mem logged
        · left
          have entry : linked.entries (.shard id) = some tmp := Function.update_self _ _ _
          rw [Disk.shard, entry, Option.map_some, content_held still.held]
      refine safe_unlink (stable_and (logged_stable caller _) (placed_stable caller id _))
        (fun _ _ sound effect both => ⟨logged_kept effect both.1, placed_kept sound effect both.2⟩)
        still ⟨logged, placed⟩ ?_
      rintro last clear ⟨logged, placed⟩
      rw [Prog.bind_eq, fsyncDir, Prog.perform_bind]
      refine safe_call (stable_and (clear_stable caller)
        (stable_and (logged_stable caller _) (placed_stable caller id _)))
        ⟨clear, logged, placed⟩ ?_
      rintro final sound ⟨clear, logged, placed⟩
      refine ⟨.sync rfl, ?_⟩
      -- By now the entry is on disk, unless somebody has deleted it meanwhile.
      have lasting : Lasting caller id (shardFile sha256 data)
          (final.perform caller .fsyncDir).2 := by
        refine ⟨placed.1, ?_⟩
        rcases placed.2 with stored | removed
        · exact .inl ⟨stored, rfl⟩
        · exact .inr removed
      refine safe_ret (stable_and (clear_stable caller)
        (stable_and (logged_stable caller _) (lasting_stable caller id _)))
        ⟨clear, logged, lasting⟩ ?_
      rintro ended - ⟨clear, logged, lasting⟩
      refine ⟨clear, ⟨_, logged, ?_⟩, ?_⟩
      · rw [event_link digest]
        exact ⟨rfl, rfl, rfl⟩
      · rintro other bytes hash same -
        cases same
        exact lasting

theorem safe_write (digest : ∀ data, (sha256 data).length = digestSize) {caller : Nat}
    {id : Uuid} {data : Bytes} (called : Called caller (.write id data)) {disk : Disk}
    (untouched : Untouched caller disk) :
    Safe (node sha256 levels) (contract sha256 levels Called) caller
      (fun out => Done sha256 caller (.write id data) (.wrote out))
      (writeShard sha256 levels id data) disk := by
  unfold writeShard
  rw [Prog.bind_eq]
  refine safe_bind (safe_mkdir caller levels (Nat.le_refl _) disk untouched) ?_
  rintro - made - ⟨untouched, there⟩
  rw [Prog.bind_eq, mkstemp, Prog.perform_bind]
  refine safe_call (stable_and (untouched_stable caller) (made_stable caller levels))
    ⟨untouched, there⟩ ?_
  rintro later sound ⟨untouched, there⟩
  have rooted : later.made = later.levels := by
    rw [sound.depth]
    exact Nat.le_antisymm sound.made there
  have done : later.perform caller .mkstemp = (.ok later.files.length, Disk.enter
      { later with files := later.files ++ [⟨[], false, caller⟩] }
      (.temp later.files.length) (some later.files.length)) := by
    simp only [Disk.perform, rooted, Nat.lt_irrefl, if_false]
  rw [done]
  refine ⟨.create rooted rfl, ?_⟩
  have holding := created_holding untouched
  have unlogged := untouched.unlogged
  generalize later.files.length = tmp at holding ⊢
  dsimp only
  -- the digest, the payload, `fsync`: each changes the call's own file
  rw [Prog.bind_eq, Storage.write, Prog.perform_bind]
  refine safe_call (stable_and (holding_stable caller tmp _) (unlogged_stable caller))
    ⟨holding, unlogged⟩ ?_
  rintro first - ⟨holding, unlogged⟩
  simp only [Disk.perform, changed holding.held]
  refine ⟨.edit tmp _ _ holding.held rfl rfl rfl rfl, ?_⟩
  rw [Prog.bind_eq, Storage.write, Prog.perform_bind]
  refine safe_call (stable_and (holding_stable caller tmp _) (unlogged_stable caller))
    ⟨edited_holding holding rfl, unlogged⟩ ?_
  rintro second - ⟨holding, unlogged⟩
  simp only [Disk.perform, changed holding.held]
  refine ⟨.edit tmp _ _ holding.held rfl rfl rfl rfl, ?_⟩
  rw [Prog.bind_eq, fsync, Prog.perform_bind]
  refine safe_call (stable_and (holding_stable caller tmp _) (unlogged_stable caller))
    ⟨edited_holding holding rfl, unlogged⟩ ?_
  rintro third - ⟨holding, unlogged⟩
  simp only [Disk.perform, changed holding.held]
  refine ⟨.edit tmp _ _ holding.held rfl rfl rfl rfl, ?_⟩
  exact safe_publish digest called (edited_holding holding rfl) unlogged

theorem untouched_clear {caller : Nat} {before after : Disk} (untouched : Untouched caller before)
    (same : after.files = before.files) : Clear caller after := by
  intro file inode held own
  rw [same] at held
  exact absurd own (untouched.fileless file inode held)

theorem checked_shardFile (digest : ∀ data, (sha256 data).length = digestSize) (data : Bytes) :
    checked sha256 (shardFile sha256 data) = .ok data := by
  unfold checked shardFile
  rw [← digest data, List.take_left, List.drop_left]
  simp

/-- An open file is complete and stays as it is, even once its name is gone. -/
theorem safe_read (digest : ∀ data, (sha256 data).length = digestSize) {caller : Nat}
    {id : Uuid} (called : Called caller (.read id)) {disk : Disk}
    (untouched : Untouched caller disk) :
    Safe (node sha256 levels) (contract sha256 levels Called) caller
      (fun out => Done sha256 caller (.read id) (.bytes out)) (readShard sha256 id) disk := by
  unfold readShard
  rw [Prog.bind_eq, openShard, Prog.perform_bind]
  refine safe_call (untouched_stable caller) untouched fun later sound untouched => ?_
  refine ⟨.open id called untouched.unlogged rfl, ?_⟩
  have clear : Clear caller (later.perform caller (.open id)).2 := by
    rw [open_recorded]
    exact untouched_clear untouched rfl
  have logged : Logged caller (.open id (later.shard id)) (later.perform caller (.open id)).2 := by
    rw [open_recorded]
    exact List.mem_append_right _ List.mem_cons_self
  cases entry : later.entries (.shard id) with
  | none =>
      have absent : later.shard id = none := by rw [Disk.shard, entry, Option.map_none]
      have failed : (later.perform caller (.open id)).1 = .error .fileNotFound := by
        simp only [Disk.perform, entry]
      rw [failed]
      rw [absent] at logged
      refine safe_ret (stable_and (clear_stable caller) (logged_stable caller _)) ⟨clear, logged⟩ ?_
      rintro final - ⟨clear, logged⟩
      exact ⟨clear, ⟨_, logged, rfl, rfl⟩, fun _ _ _ other => by cases other⟩
  | some file =>
      have opened : (later.perform caller (.open id)).1 = .ok file := by
        simp only [Disk.perform, entry]
      obtain ⟨data, inode, held, synced, content⟩ := sound.stored id file entry
      have found : later.shard id = some (shardFile sha256 data) := by
        rw [Disk.shard, entry, Option.map_some, content_held held, content]
      rw [opened]
      rw [found] at logged
      -- A synced inode is never written again, so the bytes stay what was opened.
      have stays : Stable (contract sha256 levels Called) caller fun disk =>
          disk.files[file]? = some inode := by
        rintro before after - - ⟨other, -, move⟩ held
        rcases (move_effect move).files file inode held with same | ⟨-, unsynced, -⟩
        · exact same
        · rw [synced] at unsynced
          cases unsynced
      have still : (later.perform caller (.open id)).2.files[file]? = some inode := by
        rw [open_recorded]
        exact held
      dsimp only
      rw [Prog.bind_eq, Storage.read, Prog.perform_bind]
      refine safe_call (stable_and stays (stable_and (clear_stable caller) (logged_stable caller _)))
        ⟨still, clear, logged⟩ ?_
      rintro last sound ⟨still, clear, logged⟩
      refine ⟨.mkdir last.made (Nat.le_refl _) (sound.depth ▸ sound.made) rfl, ?_⟩
      simp only [Disk.perform, content_held still, content, checked_shardFile digest]
      refine safe_ret (stable_and (clear_stable caller) (logged_stable caller _)) ⟨clear, logged⟩ ?_
      rintro final - ⟨clear, logged⟩
      refine ⟨clear, ⟨_, logged, rfl, ?_⟩, fun _ _ _ other => by cases other⟩
      rw [Option.map_some, shardFile, ← digest data, List.drop_left]

theorem safe_delete {caller : Nat} {id : Uuid} (called : Called caller (.delete id)) {disk : Disk}
    (untouched : Untouched caller disk) :
    Safe (node sha256 levels) (contract sha256 levels Called) caller
      (fun out => Done sha256 caller (.delete id) (.deleted out)) (deleteShard id) disk := by
  unfold deleteShard
  rw [Prog.bind_eq, unlink, Prog.perform_bind]
  refine safe_call (untouched_stable caller) untouched fun later sound untouched => ?_
  refine ⟨.remove id called untouched.unlogged rfl, ?_⟩
  cases entry : later.entries (.shard id) with
  | none =>
      rw [remove_absent caller entry]
      have logged : Logged caller (.unlink id false) (later.record caller (.unlink id false)) :=
        List.mem_append_right _ List.mem_cons_self
      refine safe_ret (stable_and (clear_stable caller) (logged_stable caller _))
        ⟨untouched_clear untouched rfl, logged⟩ ?_
      rintro final - ⟨clear, logged⟩
      exact ⟨clear, ⟨_, logged, rfl, rfl⟩, fun _ _ _ other => by cases other⟩
  | some file =>
      rw [remove_present caller entry]
      have logged : Logged caller (.unlink id true)
          ((later.enter (.shard id) none).record caller (.unlink id true)) :=
        List.mem_append_right _ List.mem_cons_self
      have clear : Clear caller
          ((later.enter (.shard id) none).record caller (.unlink id true)) :=
        untouched_clear untouched rfl
      dsimp only
      rw [Prog.bind_eq, fsyncDir, Prog.perform_bind]
      refine safe_call (stable_and (clear_stable caller) (logged_stable caller _))
        ⟨clear, logged⟩ ?_
      rintro last - ⟨clear, logged⟩
      refine ⟨.sync rfl, ?_⟩
      refine safe_ret (stable_and (clear_stable caller) (logged_stable caller _)) ⟨clear, logged⟩ ?_
      rintro final - ⟨clear, logged⟩
      exact ⟨clear, ⟨_, logged, rfl, rfl⟩, fun _ _ _ other => by cases other⟩

theorem safe_program (digest : ∀ data, (sha256 data).length = digestSize) {caller : Nat}
    {call : Call} (called : Called caller call) {disk : Disk} (untouched : Untouched caller disk) :
    Safe (node sha256 levels) (contract sha256 levels Called) caller (Done sha256 caller call)
      (program sha256 levels call) disk := by
  cases call with
  | write id data => exact safe_map (safe_write digest called untouched)
  | read id => exact safe_map (safe_read digest called untouched)
  | delete id => exact safe_map (safe_delete called untouched)

theorem composes : Composes (node sha256 levels) (contract sha256 levels Called) where
  guar_inv _ _ _ sound move := move_sound sound move
  guar_rely _ other _ _ apart _ move := ⟨other, Ne.symm apart, move⟩
  env_inv _ _ _ _ _ may := may.elim
  env_rely _ _ _ _ _ _ may := may.elim

/-- A node between two steps: every call keeps the contract, and of a call that
has not begun nothing is on the disk. -/
structure Steady (sha256 : Bytes → Bytes) (levels : Nat) (Called : Nat → Call → Prop)
    (config : NodeConfig) : Prop where
  all : AllSafe (node sha256 levels) (contract sha256 levels Called) config
  fresh : ∀ thread, config.threads thread = .fresh → Untouched thread config.shared

theorem idle_fresh {thread : Nat} {status : Status Call Op Res Outcome}
    (idle : Idle (node sha256 levels) thread status) : status = .fresh := by
  cases status with
  | fresh => rfl
  | running job rest => exact idle.elim
  | ended => cases idle

theorem set_fresh {config : NodeConfig} {thread other : Nat} {status : Status Call Op Res Outcome}
    (begun : status ≠ .fresh) (fresh : (config.set thread status).threads other = .fresh) :
    other ≠ thread ∧ config.threads other = .fresh := by
  rw [threads_set] at fresh
  by_cases same : other = thread
  · rw [if_pos same] at fresh
    exact absurd fresh begun
  · rw [if_neg same] at fresh
    exact ⟨same, fresh⟩

theorem step_steady (digest : ∀ data, (sha256 data).length = digestSize)
    {before after : NodeConfig} {label : NodeLabel} (steady : Steady sha256 levels Called before)
    (taken : Step (node sha256 levels) before label after)
    (called : ∀ thread call, label = .start thread call → Called thread call)
    (running : ∀ crash, label ≠ .env crash) :
    Steady sha256 levels Called after ∧
      Kept (contract sha256 levels Called) before label after := by
  have begins : ∀ thread call disk, Sound sha256 levels disk →
      (node sha256 levels).starts thread call = true →
      (contract sha256 levels Called).allowed disk (.start thread call) →
        Safe (node sha256 levels) (contract sha256 levels Called) thread (Done sha256 thread call)
          (program sha256 levels call) disk :=
    fun thread call disk _ _ may => safe_program digest may.1 may.2
  have allowed : (contract sha256 levels Called).allowed before.shared label := by
    cases taken with
    | start idle may => exact ⟨called _ _ rfl, steady.fresh _ (idle_fresh idle)⟩
    | act at_op done => trivial
    | fail at_op => trivial
    | finish at_ret => trivial
    | env done => exact absurd rfl (running _)
  obtain ⟨safe, kept⟩ := step_safe composes begins steady.all taken allowed
  refine ⟨⟨safe, fun thread fresh => ?_⟩, kept⟩
  cases taken with
  | start idle may => exact steady.fresh thread (set_fresh (by simp) fresh).2
  | act at_op done =>
      obtain ⟨apart, before_fresh⟩ := set_fresh (by simp) fresh
      exact untouched_stable thread _ _ steady.all.inv safe.inv ⟨_, Ne.symm apart, kept⟩
        (steady.fresh thread before_fresh)
  | fail at_op => exact steady.fresh thread (set_fresh (by simp) fresh).2
  | finish at_ret => exact steady.fresh thread (set_fresh (by simp) fresh).2
  | env done => exact absurd rfl (running _)

theorem started_fresh {before after : NodeConfig} {labels : List NodeLabel}
    (run : Run (Step (node sha256 levels)) before labels after) {thread : Nat} {call : Call}
    (started : .start thread call ∈ labels) : before.threads thread = .fresh := by
  obtain ⟨first, second, left, right, -, start, taken, -⟩ := run_member run started
  have fresh : left.threads thread = .fresh := by
    cases taken with
    | start idle may => exact idle_fresh idle
  by_contra begun
  have still : ∀ config label next, config.threads thread ≠ .fresh →
      Step (node sha256 levels) config label next → next.threads thread ≠ .fresh := by
    intro config label next begun step fresh
    cases step with
    | start idle may => exact begun (set_fresh (by simp) fresh).2
    | act at_op done => exact begun (set_fresh (by simp) fresh).2
    | fail at_op => exact begun (set_fresh (by simp) fresh).2
    | finish at_ret => exact begun (set_fresh (by simp) fresh).2
    | env done => exact begun fresh
  exact run_invariant still start begun fresh

end SecureFileSystem.ShardCalls
