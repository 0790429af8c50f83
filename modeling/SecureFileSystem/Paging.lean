import SecureFileSystem.Guarantees
import SecureFileSystem.Pages
import SecureFileSystem.Transcript

/-!
`GET /files` page by page, while the service goes on. A client who asks for one
page after the other until one is not full has seen every file they had at the
start, unless one of their files goes in the meantime.
-/

namespace SecureFileSystem.Paging

open Base Database Session LifeCycle Ledger Program Transition RelyGuarantee Execution Transcript
  Uuid Routers Service Interference Guarantees

def listed (userId : Uuid) (file : File) : Bool :=
  file.ownerUserId = userId && file.status = .available

abbrev Newer (left right : File) : Prop := newerFirst left right = true

instance newer_total : Std.Total Newer := by
  constructor
  intro left right
  simp only [Newer, newerFirst, Bool.or_eq_true, Bool.and_eq_true, decide_eq_true_eq]
  omega

instance newer_trans : IsTrans File Newer := by
  constructor
  intro first second third
  simp only [Newer, newerFirst, Bool.or_eq_true, Bool.and_eq_true, decide_eq_true_eq]
  omega

/-- No step takes a file away that the user could list. -/
def Keeping (userId : Uuid) (config : ServiceConfig) : ServiceLabel → Prop
  | .act _ (.commit writes) _ => ∀ file ∈ config.shared.db.files, listed userId file = true →
      .deleteFile file.id ∉ writes ∧
        ∀ deletedAt linkVersion, .setDeleted file.id deletedAt linkVersion ∉ writes
  | _ => True

/-- A client reads on: after any steps in between, the next page is asked for
and sent. -/
inductive Walk (platform : Platform) (userId : Uuid) (limit : Nat) (start : ServiceConfig) :
    List (List File) → ServiceConfig → Prop
  | begin : Walk platform userId limit start [] start
  | page {pages : List (List File)} {middle begun serving answering after : ServiceConfig}
      {thread : Tid} {pause labels : List ServiceLabel} {items : List (File × Files.Availability)}
      (earlier : Walk platform userId limit start pages middle)
      (paused : Run (Guarded (Keeping userId) (Step (service platform))) middle pause begun)
      (asked : Step (service platform) begun
        (.start thread (.listFiles userId limit (pages.length * limit))) serving)
      (served : Run (Guarded (Keeping userId) (Step (service platform))) serving labels answering)
      (sent : Step (service platform) answering
        (.finish thread (.listFiles userId limit (pages.length * limit))
          (.response ⟨200, .fileList items limit (pages.length * limit)⟩)) after) :
      Walk platform userId limit start (pages ++ [items.map Prod.fst]) after

section Steps
variable {platform : Platform} {clock : Nat} {first labels : List ServiceLabel}
  {before after : ServiceConfig} {label : ServiceLabel} {userId : Uuid} {file : File}

theorem effect_present {thread : Tid} {shared : Shared} {transaction : Transaction} {db : Db}
    (enabled : Enabled thread shared transaction)
    (done : shared.db.commit transaction.writes = some db) (present : file ∈ shared.db.files)
    (available : file.status = .available) (whole : .deleteFile file.id ∉ transaction.writes)
    (standing : ∀ deletedAt linkVersion,
      .setDeleted file.id deletedAt linkVersion ∉ transaction.writes) : file ∈ db.files := by
  obtain ⟨effect, -⟩ := enabled_effect enabled done
  have files : db.files = (transaction.effect (catalog shared.db)).files :=
    congrArg Catalog.files effect
  rw [files]
  cases transaction with
  | upload new shards => exact List.mem_append_left _ present
  | publish fileId event =>
      have other : file.id ≠ fileId := by
        intro same
        rw [enabled.2.2.2.2 file present same] at available
        cases available
      exact List.mem_map.mpr ⟨file, present, if_neg other⟩
  | retract fileId =>
      have other : file.id ≠ fileId := by
        rintro rfl
        exact whole List.mem_cons_self
      exact List.mem_filter.mpr ⟨present, decide_eq_true other⟩
  | revoke fileId deletedAt linkVersion event =>
      have other : file.id ≠ fileId := by
        rintro rfl
        exact standing deletedAt linkVersion List.mem_cons_self
      exact List.mem_map.mpr ⟨file, present, if_neg other⟩
  | discard ids => exact present
  | repoint old new node => exact present
  | observe writes => exact present
  | audit event => exact present

theorem step_present (run : Run (Step (service platform)) (deployed clock) first before)
    (taken : Guarded (Keeping userId) (Step (service platform)) before label after)
    (present : file ∈ before.shared.db.files) (mine : listed userId file = true) :
    file ∈ after.shared.db.files := by
  obtain ⟨taken, keeping⟩ := taken
  have available : file.status = .available := by
    simp only [listed, Bool.and_eq_true, decide_eq_true_eq] at mine
    exact mine.2
  have step := taken
  cases taken with
  | start _ _ => exact present
  | fail _ => exact present
  | finish _ => exact present
  | env done =>
      rw [(environment_undisturbed _ done).files]
      exact present
  | @act thread job request more answer shared at_op done =>
      cases request with
      | commit writes =>
          obtain ⟨transaction, db, rfl, enabled, committed, same⟩ := service_commit run step
          obtain ⟨whole, standing⟩ := keeping file present mine
          rw [same]
          exact effect_present enabled committed present available whole standing
      | _ =>
          change exec thread before.shared _ answer = some shared at done
          rw [exec_db rfl done]
          exact present

/-- What a user could list stays there. -/
theorem run_present (run : Run (Step (service platform)) (deployed clock) first before)
    (rest : Run (Guarded (Keeping userId) (Step (service platform))) before labels after)
    (present : file ∈ before.shared.db.files) (mine : listed userId file = true) :
    file ∈ after.shared.db.files := by
  induction rest with
  | refl => exact present
  | next ran taken ih => exact step_present (run_append run (guarded_run ran)) taken ih mine

end Steps

section Programs

def PageFrom (userId : Uuid) (limit offset : Nat) (told : List (Answered Res))
    (outcome : Outcome) : Prop :=
  ∀ status items size start, outcome = .response ⟨status, .fileList items size start⟩ → ∃ rows,
    (⟨.selectFiles fun _ file => file.ownerUserId = userId && file.status = .available, rows⟩ :
      Answered Res) ∈ told ∧ items.map Prod.fst = Pages.page Newer rows offset limit

theorem listFiles_shows (platform : Platform) (userId : Uuid) (limit offset : Nat) :
    Shows (PageFrom userId limit offset) []
      (program platform (.listFiles userId limit offset)) := by
  refine ⟨trivial, fun rows => ?_⟩
  have answers : ∀ told states,
      (⟨.selectFiles fun _ file => file.ownerUserId = userId && file.status = .available, rows⟩ :
        Answered Res) ∈ told →
      PageFrom userId limit offset told (.response ⟨200, .fileList
        ((((rows.insertionSort fun left right => newerFirst left right).drop offset).take
          limit).map fun file => fileOut file states) limit offset⟩) := by
    rintro told states selected _ _ _ _ ⟨rfl⟩
    refine ⟨rows, selected, ?_⟩
    rw [List.map_map]
    exact List.map_id _
  unfold Files.availability
  simp only [Prog.pure_eq, Prog.bind_eq, Prog.ret_bind]
  split
  · exact answers _ _ (by simp)
  · exact ⟨trivial, fun placed => answers _ _ (by simp)⟩

end Programs

section Pages
variable {platform : Platform} {clock : Nat} {userId : Uuid} {limit : Nat}

/-- The listing as a full page would show it. -/
def listing (userId : Uuid) (db : Db) : List File :=
  (db.files.filter (listed userId)).insertionSort Newer

theorem mem_listing {db : Db} {file : File} :
    file ∈ listing userId db ↔ file ∈ db.files ∧ listed userId file = true := by
  rw [listing, List.mem_insertionSort, List.mem_filter]

theorem newer_antisymm {shared : Shared} (wf : WellFormed shared) {left right : File}
    (first : left ∈ shared.db.files) (second : right ∈ shared.db.files) (ahead : Newer left right)
    (behind : Newer right left) : left = right := by
  simp only [Newer, newerFirst, Bool.or_eq_true, Bool.and_eq_true, decide_eq_true_eq]
    at ahead behind
  have same : left.id = right.id := BitVec.eq_of_toNat_eq (by omega)
  exact Handlers.files_once wf first second same

theorem files_distinct {shared : Shared} (wf : WellFormed shared) : shared.db.files.Nodup :=
  List.Nodup.of_map _ wf.files_nodup

theorem rows_position {shared later : Shared} (wf : WellFormed shared) (wf' : WellFormed later)
    {rows rows' : List File} (order : rows.Perm (shared.db.files.filter (listed userId)))
    (order' : rows'.Perm (later.db.files.filter (listed userId)))
    (kept : ∀ file ∈ shared.db.files, listed userId file = true → file ∈ later.db.files)
    {index : Nat} {file : File} (found : (rows.insertionSort Newer)[index]? = some file) :
    ∃ place, index ≤ place ∧ (rows'.insertionSort Newer)[place]? = some file := by
  have inside : ∀ {row : File}, row ∈ rows'.insertionSort Newer ↔
      row ∈ later.db.files ∧ listed userId row = true := by
    intro row
    rw [List.mem_insertionSort, order'.mem_iff, List.mem_filter]
  have once : (rows.insertionSort Newer).Nodup :=
    (List.perm_insertionSort _ _).nodup_iff.mpr
      (order.nodup_iff.mpr ((files_distinct wf).filter _))
  apply Pages.position_grows (List.pairwise_insertionSort _ _) once
    (List.pairwise_insertionSort _ _) _ _ found
  · intro left first right second
    exact newer_antisymm wf' (inside.mp first).1 (inside.mp second).1
  · intro row member
    obtain ⟨present, mine⟩ :=
      List.mem_filter.mp (order.mem_iff.mp ((List.mem_insertionSort _).mp member))
    exact inside.mpr ⟨kept row present mine, mine⟩

structure Shown (userId : Uuid) (limit offset : Nat) (before after : Shared) (shown : List File) :
    Prop where
  once : shown.Nodup
  bound : shown.length ≤ limit
  sorted : shown.Pairwise Newer
  mine : ∀ file ∈ shown, listed userId file = true
  /-- a file that it does not reach is behind it, and it is full -/
  reaches : ∀ index file, (listing userId before.db)[index]? = some file → offset ≤ index →
    file ∈ shown ∨ shown.length = limit ∧
      ∃ later, offset + limit ≤ later ∧ (listing userId after.db)[later]? = some file

theorem rows_shown {before selected after : Shared} (wf : WellFormed before)
    (wf' : WellFormed selected) (wf'' : WellFormed after) {rows : List File} {offset : Nat}
    (order : rows.Perm (selected.db.files.filter (listed userId)))
    (kept : ∀ file ∈ before.db.files, listed userId file = true → file ∈ selected.db.files)
    (kept' : ∀ file ∈ selected.db.files, listed userId file = true → file ∈ after.db.files) :
    Shown userId limit offset before after (Pages.page Newer rows offset limit) := by
  constructor
  case once => exact Pages.page_once (order.nodup_iff.mpr ((files_distinct wf').filter _))
  case bound =>
    rw [Pages.page, List.length_take]
    exact Nat.min_le_left _ _
  case sorted => exact Pages.page_sorted
  case mine =>
    intro file member
    exact (List.mem_filter.mp (order.mem_iff.mp (Pages.page_mem member))).2
  case reaches =>
    intro index file found begun
    obtain ⟨place, back, there⟩ := rows_position wf wf' (List.Perm.refl _) order kept found
    by_cases near : place < offset + limit
    · exact Or.inl (Pages.page_shows there (Nat.le_trans begun back) near)
    · -- the file is behind this page, and what is listed later only moves it further back
      have far := Nat.le_of_not_lt near
      right
      refine ⟨Pages.page_full there far, ?_⟩
      obtain ⟨later, further, found_later⟩ :=
        rows_position wf' wf'' order (List.Perm.refl _) kept' there
      exact ⟨later, Nat.le_trans far further, found_later⟩

end Pages

section Walks
variable {platform : Platform} {clock : Nat} {userId : Uuid} {limit : Nat}
  {first pause labels : List ServiceLabel} {start middle begun serving answering after :
    ServiceConfig}

/-- A page shows the files as of one moment between its request and its response. -/
theorem served_shown {thread : Tid} {offset : Nat} {items : List (File × Files.Availability)}
    (run : Run (Step (service platform)) (deployed clock) first middle)
    (paused : Run (Guarded (Keeping userId) (Step (service platform))) middle pause begun)
    (asked : Step (service platform) begun (.start thread (.listFiles userId limit offset)) serving)
    (served : Run (Guarded (Keeping userId) (Step (service platform))) serving labels answering)
    (sent : Step (service platform) answering (.finish thread (.listFiles userId limit offset)
      (.response ⟨200, .fileList items limit offset⟩)) after) :
    (∃ all, Run (Step (service platform)) (deployed clock) all after) ∧
      Shown userId limit offset middle.shared after.shared (items.map Prod.fst) := by
  have waited := run_append run (guarded_run paused)
  have began : Run (Step (service platform)) (deployed clock) _ serving := .next waited asked
  have ended : Run (Step (service platform)) (deployed clock) _ answering :=
    run_append began (guarded_run served)
  have closed : Run (Step (service platform)) (deployed clock) _ after := .next ended sent
  refine ⟨⟨_, closed⟩, ?_⟩
  have idle : ∀ job rest, begun.threads thread ≠ .running job rest := by
    intro job rest running
    cases asked with
    | start resting _ =>
        rw [running] at resting
        exact resting
  have same_start : serving.shared = begun.shared := by
    cases asked with
    | start _ _ => rfl
  have same_end : after.shared = answering.shared := by
    cases sent with
    | finish _ => rfl
  have at_ret : answering.threads thread = .running (.listFiles userId limit offset)
      (.ret (.response ⟨200, .fileList items limit offset⟩)) := by
    cases sent with
    | finish found => exact found
  -- the rows of the page were selected in between
  obtain ⟨early, late, whole, advances⟩ :=
    run_transcript (run_cons asked (guarded_run served)) idle at_ret
  obtain ⟨rows, told, shown⟩ :=
    advances_shows advances (listFiles_shows platform userId limit offset) _ _ _ _ rfl
  have selected := answersOf_mem told
  have member : .act thread (.selectFiles fun _ file =>
      file.ownerUserId = userId && file.status = .available) rows ∈ labels := by
    have inside := List.mem_append_right early (List.mem_cons_of_mem
      (.start thread (.listFiles userId limit offset)) selected)
    rw [← whole] at inside
    rcases List.mem_cons.mp inside with same | later
    · cases same
    · exact later
  obtain ⟨sooner, later, left, right, rfl, ran, taken, rest⟩ := run_member served member
  have reached := run_append began (guarded_run ran)
  have step := taken
  cases taken.1 with
  | act at_op done =>
      obtain ⟨order, same⟩ := Option.ite_none_right_eq_some.mp done
      rw [shown]
      apply rows_shown (service_safe run).inv (service_safe reached).inv (service_safe closed).inv
        order
      · intro file present mine
        have there := run_present run paused present mine
        rw [← same_start] at there
        exact run_present began ran there mine
      · intro file present mine
        rw [same_end]
        exact run_present (.next reached step.1) rest (step_present reached step present mine) mine

/-- Behind the pages read so far, all full, or on one of them. -/
theorem walk_seen (run : Run (Step (service platform)) (deployed clock) first start)
    {pages : List (List File)} (walk : Walk platform userId limit start pages after) :
    (∃ all, Run (Step (service platform)) (deployed clock) all after) ∧
    (∀ page ∈ pages, page.Nodup ∧ page.length ≤ limit ∧ page.Pairwise Newer ∧
      ∀ file ∈ page, listed userId file = true) ∧
    ∀ file ∈ start.shared.db.files, listed userId file = true →
      (∃ page ∈ pages, file ∈ page) ∨
        (∀ page ∈ pages, page.length = limit) ∧ ∃ index, pages.length * limit ≤ index ∧
          (listing userId after.shared.db)[index]? = some file := by
  induction walk with
  | begin =>
      refine ⟨⟨first, run⟩, fun page none => absurd none List.not_mem_nil, ?_⟩
      intro file present mine
      obtain ⟨index, found⟩ := List.mem_iff_getElem?.mp (mem_listing.mpr ⟨present, mine⟩)
      right
      refine ⟨fun page none => absurd none List.not_mem_nil, index, ?_, found⟩
      rw [List.length_nil, Nat.zero_mul]
      exact Nat.zero_le _
  | page earlier paused asked served sent ih =>
      obtain ⟨⟨all, ran⟩, each, seen⟩ := ih
      obtain ⟨reached, shown⟩ := served_shown ran paused asked served sent
      refine ⟨reached, ?_, ?_⟩
      · intro page member
        rcases List.mem_append.mp member with old | new
        · exact each page old
        · rw [List.mem_singleton.mp new]
          exact ⟨shown.once, shown.bound, shown.sorted, shown.mine⟩
      · intro file present mine
        rcases seen file present mine with ⟨page, member, inside⟩ | ⟨full, index, behind, found⟩
        · exact Or.inl ⟨page, List.mem_append_left _ member, inside⟩
        rcases shown.reaches index file found behind with now | ⟨whole, later, further, there⟩
        · exact Or.inl ⟨_, List.mem_append_right _ List.mem_cons_self, now⟩
        · right
          refine ⟨?_, later, ?_, there⟩
          · intro page member
            rcases List.mem_append.mp member with old | new
            · exact full page old
            · rw [List.mem_singleton.mp new]
              exact whole
          · rw [List.length_append, List.length_singleton, Nat.add_mul, Nat.one_mul]
            exact further

structure Walked (userId : Uuid) (limit : Nat) (start : ServiceConfig) (pages : List (List File)) :
    Prop where
  each : ∀ page ∈ pages, page.Nodup ∧ page.length ≤ limit ∧ page.Pairwise Newer ∧
    ∀ file ∈ page, listed userId file = true
  /-- after a page that is not full nothing is missing -/
  complete : ∀ front last, pages = front ++ [last] → last.length < limit →
    ∀ file ∈ start.shared.db.files, listed userId file = true → ∃ page ∈ pages, file ∈ page

/-- Reading forward misses no file, whatever is uploaded in the meantime. -/
theorem pages_complete (platform : Platform) (clock : Nat) (labels : List ServiceLabel)
    (start after : ServiceConfig)
    (run : Run (Step (service platform)) (deployed clock) labels start) (userId : Uuid)
    (limit : Nat) (pages : List (List File))
    (walk : Walk platform userId limit start pages after) : Walked userId limit start pages := by
  obtain ⟨-, each, seen⟩ := walk_seen run walk
  constructor
  case each => exact each
  case complete =>
    intro front last whole short file present mine
    rcases seen file present mine with found | ⟨full, -⟩
    · exact found
    · have filled := full last (whole ▸ List.mem_append_right _ List.mem_cons_self)
      omega

end Walks

/-- A commit that takes no file away. -/
def undeleting (_ : ServiceConfig) : ServiceLabel → Bool
  | .act _ (.commit writes) _ => writes.all fun
      | .deleteFile _ => false
      | .setDeleted _ _ _ => false
      | _ => true
  | _ => true

theorem undeleting_keeps {config : ServiceConfig} {label : ServiceLabel}
    (calm : undeleting config label = true) : Keeping 9 config label := by
  unfold Keeping
  split
  · rename_i thread writes answer
    intro file _ _
    refine ⟨fun member => ?_, fun deletedAt linkVersion member => ?_⟩
    · cases List.all_eq_true.mp calm _ member
    · cases List.all_eq_true.mp calm _ member
  · trivial

theorem undeleting_run {before after : ServiceConfig} {labels : List ServiceLabel}
    {moves : List ServiceMove}
    (driven : drive (service plain) undeleting before moves = some (labels, after)) :
    Run (Guarded (Keeping 9) (Step (service plain))) before labels after :=
  run_mono (fun _ _ _ taken => ⟨taken.1, undeleting_keeps taken.2⟩) (drive_run _ _ _ _ _ _ driven)

def readPage (config : ServiceConfig) (pages : List (List File)) (pause : List ServiceMove)
    (thread requests limit : Nat) : Option (List (List File) × ServiceConfig) :=
  (drive (service plain) undeleting config pause).bind fun rested =>
    (advance (service plain) rested.2
      (.start (.api thread) (.listFiles 9 limit (pages.length * limit)))).bind fun started =>
    (drive (service plain) undeleting started.2 (prompts (.api thread) requests)).bind fun driven =>
      (advance (service plain) driven.2 (.finish (.api thread))).bind fun
        | (.finish (.api other) (.listFiles user size offset)
            (.response ⟨status, .fileList items bound start⟩), after) =>
            if other = thread ∧ user = 9 ∧ size = limit ∧ offset = pages.length * limit ∧
                status = 200 ∧ bound = limit ∧ start = pages.length * limit then
              some (pages ++ [items.map Prod.fst], after)
            else none
        | _ => none

theorem readPage_walk {limit thread requests : Nat} {start middle after : ServiceConfig}
    {pages more : List (List File)} {pause : List ServiceMove}
    (walk : Walk plain 9 limit start pages middle)
    (done : readPage middle pages pause thread requests limit = some (more, after)) :
    Walk plain 9 limit start more after := by
  obtain ⟨⟨paused, resting⟩, rested, rest⟩ := Option.bind_eq_some_iff.mp done
  obtain ⟨⟨begins, serving⟩, asked, rest⟩ := Option.bind_eq_some_iff.mp rest
  obtain ⟨⟨labels, answering⟩, driven, rest⟩ := Option.bind_eq_some_iff.mp rest
  obtain ⟨⟨ends, closed⟩, sent, shown⟩ := Option.bind_eq_some_iff.mp rest
  have began := advance_step _ _ _ _ _ asked
  have finished := advance_step _ _ _ _ _ sent
  have labelled : begins = .start (.api thread) (.listFiles 9 limit (pages.length * limit)) := by
    simp only [advance, Option.ite_none_right_eq_some, Option.some.injEq, Prod.mk.injEq] at asked
    exact asked.2.1.symm
  subst labelled
  split at shown
  · rename_i paired
    cases paired
    obtain ⟨⟨rfl, rfl, rfl, rfl, rfl, rfl, rfl⟩, same⟩ := Option.ite_none_right_eq_some.mp shown
    cases same
    exact .page walk (undeleting_run rested) began (undeleting_run driven) finished
  · cases shown

/-- The user has one file and reads a page of one file; then uploads another one, a
second later, and reads two more pages. -/
def readsOn (config : ServiceConfig) : Option (List (List File) × ServiceConfig) :=
  let uploads : List ServiceMove := [.env (.tick 1), .start (.api 2) (.upload smallUpload)] ++
    prompts (.api 2) 8 ++ delivers [2, 3] ++ prompts (.api 2) 4
  (readPage config [] [] 1 2 1).bind fun one =>
    (readPage one.2 one.1 uploads 3 2 1).bind fun two => readPage two.2 two.1 [] 4 1 1

/-- The new file has moved the old one on to the second page, too. -/
def readsOut (config : ServiceConfig) : Bool :=
  (readsOn config).any fun read => decide (read.1.map (·.map (·.id)) = [[1], [1], []] ∧
    read.2.shared.db.files.length = 2)

theorem pages_complete_small : ∃ labels start after pages file,
    Run (Step (service plain)) (deployed 0) labels start ∧ Walk plain 9 1 start pages after ∧
      pages.map (·.map (·.id)) = [[1], [1], []] ∧ after.shared.db.files.length = 2 ∧
      file ∈ start.shared.db.files ∧ ∃ page ∈ pages, file ∈ page := by
  obtain ⟨labels, start, run, passed⟩ := drive_reaches (service plain) (deployed 0) smallUploaded
    (fun _ config => readsOut config && config.shared.db.files.any (listed 9)) (by decide +kernel)
  obtain ⟨reads, has⟩ := Bool.and_eq_true _ _ ▸ passed
  obtain ⟨⟨pages, after⟩, read, checked⟩ := (Option.any_eq_true _ _).mp reads
  obtain ⟨ids, both⟩ := of_decide_eq_true checked
  obtain ⟨⟨one, middle⟩, first, read⟩ := Option.bind_eq_some_iff.mp read
  obtain ⟨⟨two, later⟩, second, third⟩ := Option.bind_eq_some_iff.mp read
  have walk := readPage_walk (readPage_walk (readPage_walk .begin first) second) third
  obtain ⟨file, present, mine⟩ := List.any_eq_true.mp has
  refine ⟨labels, start, after, pages, file, run, walk, ids, both, present, ?_⟩
  have walked := pages_complete plain 0 labels start after run 9 1 pages walk
  obtain ⟨front, last, rfl, -, short⟩ : ∃ front last, pages = front ++ [last] ∧
      front.map (·.map (·.id)) = [[1], [1]] ∧ last.map (·.id) = [] := by
    obtain ⟨front, tail, rfl, before, behind⟩ := List.map_eq_append_iff.mp
      (show pages.map (·.map (·.id)) = [[1], [1]] ++ [[]] from ids)
    obtain ⟨last, rfl, short⟩ := List.map_eq_singleton_iff.mp behind
    exact ⟨front, last, rfl, before, short⟩
  obtain rfl := List.map_eq_nil_iff.mp short
  exact walked.complete front [] rfl Nat.zero_lt_one file present mine

end SecureFileSystem.Paging
