import SecureFileSystem.RelyGuarantee
import SecureFileSystem.Routers
import SecureFileSystem.Stripping

/-!
`scripts/create_user.py` and `services/auth.py`: any number of processes that
create users or rotate their keys, each in a session of its own, and the check
of the `Authorization` header against the committed table. A key is known to
the table by its hash only.
-/

namespace SecureFileSystem.Accounts

open Base Uuid Stripping Program Transition RelyGuarantee TextCodec
open Routers (Response httpException)

structure User where
  id : Uuid
  email : Text
  apiKeyHash : Text
  deriving DecidableEq

/-- A committed hash: by which process, and for whom. -/
structure Issue where
  process : Nat
  userId : Uuid
  apiKeyHash : Text
  deriving DecidableEq

structure Shared where
  users : List User
  /-- the `secrets` drawn so far and by whom -/
  drawn : List (Nat × Text)
  /-- the commits, oldest first -/
  log : List Issue

inductive Op where
  /-- `secrets.token_urlsafe(32)` -/
  | tokenUrlsafe
  | uuid4
  | selectByEmail (email : Text)
  /-- `db.add(User(…))` and its commit -/
  | insertUser (user : User)
  /-- `user.api_key_hash = …` and its commit -/
  | updateHash (userId : Uuid) (apiKeyHash : Text)

@[reducible] def Res : Op → Type
  | .tokenUrlsafe => Text
  | .uuid4 => Uuid
  | .selectByEmail _ => Option User
  | .insertUser _ => Unit
  | .updateHash _ _ => Unit

abbrev Script (Out : Type) := Prog Op Res Out

def apiKeyPrefix : Text := "sfs_".toList

def urlsafe (character : Char) : Bool :=
  character.isAlphanum || character = '-' || character = '_'

def hashApiKey (platform : Platform) (apiKey : Text) : Text := platform.sha256Hex (utf8 apiKey)

section Statements

/-- Emails, tokens and hashes are compared as texts. -/
local instance lawfulText : LawfulBEq Text := inferInstance

/-- A token has 43 characters nobody could have guessed, so none is drawn
twice; `id`, `email` and `api_key_hash` are unique. -/
def exec (process : Nat) (shared : Shared) : (request : Op) → Res request → Option Shared
  | .tokenUrlsafe, token =>
      if token.length = 43 ∧ token.all urlsafe = true ∧ token ∉ shared.drawn.map (·.2) then
        some { shared with drawn := (process, token) :: shared.drawn }
      else none
  | .uuid4, id => if id ∉ shared.users.map (·.id) then some shared else none
  | .selectByEmail email, row =>
      if row = shared.users.find? (·.email = email) then some shared else none
  | .insertUser user, _ =>
      if user.id ∉ shared.users.map (·.id) ∧ user.email ∉ shared.users.map (·.email) ∧
          user.apiKeyHash ∉ shared.users.map (·.apiKeyHash) then
        some { shared with
          users := shared.users ++ [user]
          log := shared.log ++ [⟨process, user.id, user.apiKeyHash⟩] }
      else none
  | .updateHash userId apiKeyHash, _ =>
      if userId ∈ shared.users.map (·.id) ∧ apiKeyHash ∉ shared.users.map (·.apiKeyHash) then
        some { shared with
          users := shared.users.map fun user =>
            if user.id = userId then { user with apiKeyHash := apiKeyHash } else user
          log := shared.log ++ [⟨process, userId, apiKeyHash⟩] }
      else none

end Statements

inductive Outcome where
  /-- `user_id` and `api_key` as printed -/
  | issued (userId : Uuid) (apiKey : Text)
  | noUser
  | userExists
  deriving DecidableEq

structure Command where
  email : Text
  rotate : Bool

def generateApiKey : Script Text := do
  let token ← Prog.perform Op.tokenUrlsafe
  return apiKeyPrefix ++ token

def createUser (platform : Platform) (command : Command) : Script Outcome := do
  let email := platform.unicode.lower (strip platform.unicode.isSpace command.email)
  let apiKey ← generateApiKey
  match ← Prog.perform (Op.selectByEmail email) with
  | none =>
      if command.rotate then return .noUser
      else
        let id ← Prog.perform Op.uuid4
        Prog.perform (Op.insertUser ⟨id, email, hashApiKey platform apiKey⟩)
        return .issued id apiKey
  | some user =>
      if command.rotate = false then return .userExists
      else
        Prog.perform (Op.updateHash user.id (hashApiKey platform apiKey))
        return .issued user.id apiKey

/-- Each process runs once. -/
def scripts (platform : Platform) : System Shared Nat Command Empty Op Res Outcome where
  program := createUser platform
  starts _ _ := true
  restarts _ := false
  exec := exec
  env _ event := event.elim

abbrev ScriptsConfig := Config Shared Nat Command Op Res Outcome
abbrev ScriptsLabel := Label Nat Command Empty Op Res Outcome

def migrated : ScriptsConfig := ⟨⟨[], [], []⟩, fun _ => .fresh⟩

/-- `text.partition(" ")`, without the separator -/
def partition (text : Text) : Text × Text :=
  (text.takeWhile (· ≠ ' '), (text.dropWhile (· ≠ ' ')).drop 1)

def unauthorized : Response := httpException 401 "invalid or missing API key"

/-- One query, so it sees one committed table. -/
def getCurrentUser (platform : Platform) (users : List User) (authorization : Option Text) :
    Except Response User :=
  let (scheme, apiKey) := partition (authorization.getD [])
  if platform.unicode.lower scheme ≠ "bearer".toList ∨ ¬ apiKeyPrefix <+: apiKey then
    .error unauthorized
  else
    match users.find? (·.apiKeyHash = hashApiKey platform (strip platform.unicode.isSpace apiKey)) with
    | none => .error unauthorized
    | some user => .ok user

/-- The header carries this key: the scheme, one space, the key, and blanks at
its end at most. -/
def Presents (platform : Platform) (authorization : Option Text) (apiKey : Text) : Prop :=
  ∃ scheme blanks, authorization = some (scheme ++ ' ' :: (apiKey ++ blanks)) ∧ ' ' ∉ scheme ∧
    platform.unicode.lower scheme = "bearer".toList ∧
    ∀ character ∈ blanks, platform.unicode.isSpace character = true

def Drawn (shared : Shared) (process : Nat) (apiKey : Text) : Prop :=
  ∃ token, (process, token) ∈ shared.drawn ∧ apiKey = apiKeyPrefix ++ token

def lastHash (log : List Issue) (userId : Uuid) : Option Text :=
  ((log.filter (·.userId = userId)).getLast?).map (·.apiKeyHash)

def Current (platform : Platform) (shared : Shared) (userId : Uuid) (apiKey : Text) : Prop :=
  (∃ process, Drawn shared process apiKey) ∧
    lastHash shared.log userId = some (hashApiKey platform apiKey)

/-- The outside world: no collisions, and a key has no blanks in it. -/
structure Sane (platform : Platform) : Prop where
  collisionFree : Function.Injective platform.sha256Hex
  dense : ∀ character, urlsafe character = true → platform.unicode.isSpace character = false

@[simp] theorem lastHash_snoc (log : List Issue) (issue : Issue) (userId : Uuid) :
    lastHash (log ++ [issue]) userId =
      if issue.userId = userId then some issue.apiKeyHash else lastHash log userId := by
  unfold lastHash
  by_cases mine : issue.userId = userId
  · simp [mine]
  · simp [mine]

theorem lastHash_mem {log : List Issue} {userId : Uuid} {apiKeyHash : Text}
    (last : lastHash log userId = some apiKeyHash) :
    ∃ issue ∈ log, issue.userId = userId ∧ issue.apiKeyHash = apiKeyHash := by
  obtain ⟨issue, found, rfl⟩ := Option.map_eq_some_iff.mp last
  have member := List.mem_of_getLast? found
  rw [List.mem_filter, decide_eq_true_eq] at member
  exact ⟨issue, member.1, member.2, rfl⟩

theorem hashApiKey_injective {platform : Platform} (sane : Sane platform) :
    Function.Injective (hashApiKey platform) := by
  intro left right same
  exact utf8_injective (sane.collisionFree same)

section Header
variable {platform : Platform}

theorem partition_spaced {scheme rest : Text} (free : ' ' ∉ scheme) :
    partition (scheme ++ ' ' :: rest) = (scheme, rest) := by
  have clean : ∀ character ∈ scheme, decide (character ≠ ' ') = true := by
    intro character member
    exact decide_eq_true fun same => free (same ▸ member)
  rw [partition, List.takeWhile_append_of_pos clean, List.dropWhile_append_of_pos clean]
  simp

theorem partition_rest {text : Text} (some_rest : (partition text).2 ≠ []) :
    text = (partition text).1 ++ ' ' :: (partition text).2 ∧ ' ' ∉ (partition text).1 := by
  unfold partition at *
  constructor
  · cases tail : text.dropWhile (· ≠ ' ') with
    | nil =>
        dsimp only at some_rest
        rw [tail] at some_rest
        exact absurd rfl some_rest
    | cons first rest =>
        have stop := List.head?_dropWhile_not (fun character => decide (character ≠ ' ')) text
        rw [tail] at stop
        have space : first = ' ' := by simpa using stop
        subst space
        have whole := List.takeWhile_append_dropWhile (p := fun character => decide (character ≠ ' '))
          (l := text)
        rw [tail] at whole
        exact whole.symm
  · intro member
    have kept := List.mem_takeWhile_imp member
    simp at kept

theorem key_dense (sane : Sane platform) {token : Text} (clean : token.all urlsafe = true) :
    ∀ character ∈ apiKeyPrefix ++ token, platform.unicode.isSpace character = false := by
  intro character member
  apply sane.dense
  rcases List.mem_append.mp member with front | back
  · have all : apiKeyPrefix.all urlsafe = true := by decide
    exact List.all_eq_true.mp all character front
  · exact List.all_eq_true.mp clean character back

/-- The checks of the header and the key it leads to, against how it must read. -/
theorem presents_iff (sane : Sane platform) {token : Text} (clean : token.all urlsafe = true)
    (authorization : Option Text) :
    (platform.unicode.lower (partition (authorization.getD [])).1 = "bearer".toList ∧
      apiKeyPrefix <+: (partition (authorization.getD [])).2 ∧
      strip platform.unicode.isSpace (partition (authorization.getD [])).2 =
        apiKeyPrefix ++ token) ↔
      Presents platform authorization (apiKeyPrefix ++ token) := by
  have dense := key_dense sane clean
  constructor
  · rintro ⟨bearer, begins, same⟩
    have some_rest : (partition (authorization.getD [])).2 ≠ [] := by
      intro empty
      rw [empty] at begins
      exact absurd (List.prefix_nil.mp begins) (by decide)
    obtain ⟨whole, free⟩ := partition_rest some_rest
    obtain ⟨front, back, split, before, after⟩ :=
      strip_split platform.unicode.isSpace (partition (authorization.getD [])).2
    have no_front : front = [] := by
      cases front with
      | nil => rfl
      | cons first others =>
          obtain ⟨tail, begun⟩ := begins
          rw [split] at begun
          have first_s : first = 's' := (List.cons.inj begun).1.symm
          have blank := before first (List.mem_cons_self ..)
          rw [first_s, sane.dense 's' (by decide)] at blank
          cases blank
    rw [no_front, List.nil_append, same] at split
    cases authorization with
    | none => exact absurd rfl some_rest
    | some text =>
        refine ⟨(partition text).1, back, ?_, free, bearer, after⟩
        change (partition text).2 = _ at split
        rw [← split]
        exact congrArg some whole
  · rintro ⟨scheme, blanks, rfl, free, bearer, blank⟩
    rw [Option.getD_some, partition_spaced free]
    refine ⟨bearer, ⟨token ++ blanks, by simp⟩, ?_⟩
    have core : apiKeyPrefix ++ token ≠ [] := List.append_ne_nil_of_left_ne_nil (by decide) _
    have stripped := @strip_between platform.unicode.isSpace [] (apiKeyPrefix ++ token) blanks
      (by simp) blank dense core
    simpa using stripped

end Header

structure Consistent (platform : Platform) (shared : Shared) : Prop where
  ids : (shared.users.map (·.id)).Nodup
  emails : (shared.users.map (·.email)).Nodup
  hashes : (shared.users.map (·.apiKeyHash)).Nodup
  tokens : (shared.drawn.map (·.2)).Nodup
  clean : ∀ draw ∈ shared.drawn, draw.2.all urlsafe = true
  origin : ∀ issue ∈ shared.log, ∃ apiKey, Drawn shared issue.process apiKey ∧
    issue.apiKeyHash = hashApiKey platform apiKey
  fresh : (shared.log.map (·.apiKeyHash)).Nodup
  held : ∀ user ∈ shared.users, lastHash shared.log user.id = some user.apiKeyHash

/-- Nothing is taken back: draws, commits, and rows but for their hash. -/
structure Onward (before after : Shared) : Prop where
  drawn : before.drawn ⊆ after.drawn
  log : before.log ⊆ after.log
  rows : ∀ user ∈ before.users, ∃ row ∈ after.users, row.id = user.id ∧ row.email = user.email

/-- What a finished process has told its caller. -/
def Told (platform : Platform) (process : Nat) (command : Command) (outcome : Outcome)
    (shared : Shared) : Prop :=
  match outcome with
  | .issued userId apiKey =>
      Drawn shared process apiKey ∧ ⟨process, userId, hashApiKey platform apiKey⟩ ∈ shared.log ∧
        ∃ user ∈ shared.users, user.id = userId ∧ user.email =
          platform.unicode.lower (strip platform.unicode.isSpace command.email)
  | _ => True

def contract (platform : Platform) : Contract Shared Nat Command Empty Op Res Outcome where
  inv := Consistent platform
  rely process before after := Onward before after ∧
    ∀ issue ∈ after.log, issue ∈ before.log ∨ issue.process ≠ process
  guar process before after := Consistent platform after ∧ Onward before after ∧
    ∀ issue ∈ after.log, issue ∈ before.log ∨ issue.process = process
  post := Told platform
  allowed _ _ := True

theorem onward_refl (shared : Shared) : Onward shared shared :=
  ⟨fun _ member => member, fun _ member => member, fun user member => ⟨user, member, rfl, rfl⟩⟩

theorem onward_trans {first second third : Shared} (left : Onward first second)
    (right : Onward second third) : Onward first third := by
  constructor
  · exact fun draw member => right.drawn (left.drawn member)
  · exact fun issue member => right.log (left.log member)
  · intro user member
    obtain ⟨row, there, sameId, sameEmail⟩ := left.rows user member
    obtain ⟨last, here, lastId, lastEmail⟩ := right.rows row there
    exact ⟨last, here, lastId.trans sameId, lastEmail.trans sameEmail⟩

theorem drawn_onward {before after : Shared} (onward : Onward before after) {process : Nat}
    {apiKey : Text} (drawn : Drawn before process apiKey) : Drawn after process apiKey := by
  obtain ⟨token, member, same⟩ := drawn
  exact ⟨token, onward.drawn member, same⟩

theorem told_onward {platform : Platform} {before after : Shared} (onward : Onward before after)
    {process : Nat} {command : Command} {outcome : Outcome}
    (told : Told platform process command outcome before) :
    Told platform process command outcome after := by
  cases outcome with
  | issued userId apiKey =>
      obtain ⟨drawn, logged, user, member, sameId, sameEmail⟩ := told
      obtain ⟨row, there, rowId, rowEmail⟩ := onward.rows user member
      exact ⟨drawn_onward onward drawn, onward.log logged, row, there, rowId.trans sameId,
        rowEmail.trans sameEmail⟩
  | noUser => trivial
  | userExists => trivial

theorem drawn_process {shared : Shared} (tokens : (shared.drawn.map (·.2)).Nodup)
    {process other : Nat} {apiKey : Text} (mine : Drawn shared process apiKey)
    (theirs : Drawn shared other apiKey) : other = process := by
  obtain ⟨token, member, rfl⟩ := mine
  obtain ⟨same, there, equal⟩ := theirs
  obtain rfl := List.append_cancel_left equal
  exact congrArg Prod.fst (List.inj_on_of_nodup_map tokens there member rfl)

def Holding (platform : Platform) (process : Nat) (token : Text) (shared : Shared) : Prop :=
  (process, token) ∈ shared.drawn ∧
    hashApiKey platform (apiKeyPrefix ++ token) ∉ shared.log.map (·.apiKeyHash)

theorem holding_stable {platform : Platform} (sane : Sane platform) (process : Nat) (token : Text) :
    Stable (contract platform) process (Holding platform process token) := by
  rintro before after - consistent ⟨onward, others⟩ ⟨drawn, uncommitted⟩
  refine ⟨onward.drawn drawn, ?_⟩
  intro member
  obtain ⟨issue, logged, same⟩ := List.mem_map.mp member
  obtain earlier | other := others issue logged
  · exact uncommitted (List.mem_map.mpr ⟨issue, earlier, same⟩)
  · obtain ⟨apiKey, theirs, hash⟩ := consistent.origin issue logged
    rw [hash] at same
    obtain rfl := hashApiKey_injective sane same
    exact other (drawn_process consistent.tokens ⟨token, onward.drawn drawn, rfl⟩ theirs)

section Steps
variable {platform : Platform} {before after : Shared} {process : Nat}

theorem draw_step (sane : Sane platform) (consistent : Consistent platform before) {token : Text}
    (done : exec process before .tokenUrlsafe token = some after) :
    (contract platform).guar process before after ∧ token.all urlsafe = true ∧
      Holding platform process token after := by
  simp only [exec, Option.ite_none_right_eq_some, Option.some.injEq] at done
  obtain ⟨⟨_, clean, unseen⟩, rfl⟩ := done
  have onward : Onward before { before with drawn := (process, token) :: before.drawn } := by
    refine ⟨fun draw member => List.mem_cons_of_mem _ member, fun _ member => member, ?_⟩
    exact fun user member => ⟨user, member, rfl, rfl⟩
  refine ⟨⟨⟨consistent.ids, consistent.emails, consistent.hashes, ?_, ?_, ?_, consistent.fresh,
    consistent.held⟩, onward, fun _ member => .inl member⟩, clean, List.mem_cons_self .., ?_⟩
  · exact List.nodup_cons.mpr ⟨unseen, consistent.tokens⟩
  · intro draw member
    rcases List.mem_cons.mp member with rfl | earlier
    · exact clean
    · exact consistent.clean draw earlier
  · intro issue logged
    obtain ⟨apiKey, drawn, hash⟩ := consistent.origin issue logged
    exact ⟨apiKey, drawn_onward onward drawn, hash⟩
  · intro member
    obtain ⟨issue, logged, same⟩ := List.mem_map.mp member
    obtain ⟨apiKey, ⟨other, drawn, rfl⟩, hash⟩ := consistent.origin issue logged
    rw [hash] at same
    have equal := hashApiKey_injective sane same
    obtain rfl := List.append_cancel_left equal
    exact unseen (List.mem_map.mpr ⟨_, drawn, rfl⟩)

theorem commit_step (consistent : Consistent platform before) {token : Text}
    (holding : Holding platform process token before) {userId : Uuid}
    (drawn : after.drawn = before.drawn)
    (log : after.log = before.log ++
      [⟨process, userId, hashApiKey platform (apiKeyPrefix ++ token)⟩])
    (ids : (after.users.map (·.id)).Nodup) (emails : (after.users.map (·.email)).Nodup)
    (hashes : (after.users.map (·.apiKeyHash)).Nodup)
    (rows : ∀ user ∈ before.users, ∃ row ∈ after.users, row.id = user.id ∧ row.email = user.email)
    (held : ∀ user ∈ after.users, lastHash after.log user.id = some user.apiKeyHash) :
    (contract platform).guar process before after ∧ Drawn after process (apiKeyPrefix ++ token) ∧
      ⟨process, userId, hashApiKey platform (apiKeyPrefix ++ token)⟩ ∈ after.log := by
  have onward : Onward before after := by
    constructor
    · intro draw member
      exact drawn ▸ member
    · intro issue member
      exact log ▸ List.mem_append_left _ member
    · exact rows
  have mine : Drawn after process (apiKeyPrefix ++ token) :=
    drawn_onward onward ⟨token, holding.1, rfl⟩
  -- The log has grown by this one entry.
  have split : ∀ issue ∈ after.log, issue ∈ before.log ∨
      issue = ⟨process, userId, hashApiKey platform (apiKeyPrefix ++ token)⟩ := by
    intro issue member
    rw [log] at member
    rcases List.mem_append.mp member with earlier | now
    · exact .inl earlier
    · exact .inr (List.mem_singleton.mp now)
  refine ⟨⟨⟨ids, emails, hashes, ?_, ?_, ?_, ?_, held⟩, onward, ?_⟩, mine, ?_⟩
  · rw [drawn]
    exact consistent.tokens
  · rw [drawn]
    exact consistent.clean
  · intro issue member
    rcases split issue member with earlier | rfl
    · obtain ⟨apiKey, theirs, hash⟩ := consistent.origin issue earlier
      exact ⟨apiKey, drawn_onward onward theirs, hash⟩
    · exact ⟨_, mine, rfl⟩
  · rw [log, List.map_append, List.map_singleton]
    apply consistent.fresh.append (List.nodup_singleton _)
    intro hash member now
    obtain rfl := List.mem_singleton.mp now
    exact holding.2 member
  · intro issue member
    rcases split issue member with earlier | rfl
    · exact .inl earlier
    · exact .inr rfl
  · rw [log]
    exact List.mem_append_right _ (List.mem_singleton_self _)

theorem nodup_snoc {Item : Type} {items : List Item} {item : Item} (distinct : items.Nodup)
    (new : item ∉ items) : (items ++ [item]).Nodup :=
  distinct.append (List.nodup_singleton _) (List.disjoint_singleton.mpr new)

theorem insert_step (consistent : Consistent platform before) {token email : Text} {id : Uuid}
    (holding : Holding platform process token before)
    (done : exec process before
      (.insertUser ⟨id, email, hashApiKey platform (apiKeyPrefix ++ token)⟩) () = some after) :
    (contract platform).guar process before after ∧
      ∀ command, email = platform.unicode.lower (strip platform.unicode.isSpace command.email) →
        Told platform process command (.issued id (apiKeyPrefix ++ token)) after := by
  simp only [exec, Option.ite_none_right_eq_some, Option.some.injEq] at done
  obtain ⟨⟨newId, newEmail, newHash⟩, rfl⟩ := done
  let after : Shared := { before with
    users := before.users ++ [⟨id, email, hashApiKey platform (apiKeyPrefix ++ token)⟩]
    log := before.log ++ [⟨process, id, hashApiKey platform (apiKeyPrefix ++ token)⟩] }
  obtain ⟨guar, mine, logged⟩ := @commit_step _ _ after _ consistent _ holding id rfl rfl
    (by rw [List.map_append]; exact nodup_snoc consistent.ids newId)
    (by rw [List.map_append]; exact nodup_snoc consistent.emails newEmail)
    (by rw [List.map_append]; exact nodup_snoc consistent.hashes newHash)
    (fun user member => ⟨user, List.mem_append_left _ member, rfl, rfl⟩) (by
      intro user member
      rw [lastHash_snoc]
      rcases List.mem_append.mp member with earlier | now
      · have other : id ≠ user.id := fun same => newId (List.mem_map.mpr ⟨user, earlier, same.symm⟩)
        rw [if_neg other]
        exact consistent.held user earlier
      · obtain rfl := List.mem_singleton.mp now
        exact if_pos rfl)
  refine ⟨guar, ?_⟩
  rintro command rfl
  exact ⟨mine, logged, _, List.mem_append_right _ (List.mem_singleton_self _), rfl, rfl⟩

def rehash (userId : Uuid) (apiKeyHash : Text) (user : User) : User :=
  if user.id = userId then { user with apiKeyHash := apiKeyHash } else user

@[simp] theorem rehash_id (userId : Uuid) (apiKeyHash : Text) (user : User) :
    (rehash userId apiKeyHash user).id = user.id := by
  unfold rehash
  split <;> rfl

@[simp] theorem rehash_email (userId : Uuid) (apiKeyHash : Text) (user : User) :
    (rehash userId apiKeyHash user).email = user.email := by
  unfold rehash
  split <;> rfl

theorem rehash_hashes {users : List User} (ids : (users.map (·.id)).Nodup)
    (hashes : (users.map (·.apiKeyHash)).Nodup) {userId : Uuid} {apiKeyHash : Text}
    (new : apiKeyHash ∉ users.map (·.apiKeyHash)) :
    ((users.map (rehash userId apiKeyHash)).map (·.apiKeyHash)).Nodup := by
  rw [List.map_map]
  apply List.Nodup.map_on _ (List.Nodup.of_map _ ids)
  intro left leftMember right rightMember same
  simp only [Function.comp, rehash] at same
  by_cases first : left.id = userId
  · by_cases second : right.id = userId
    · exact List.inj_on_of_nodup_map ids leftMember rightMember (first.trans second.symm)
    · rw [if_pos first, if_neg second] at same
      exact absurd (List.mem_map.mpr ⟨right, rightMember, same.symm⟩) new
  · by_cases second : right.id = userId
    · rw [if_neg first, if_pos second] at same
      exact absurd (List.mem_map.mpr ⟨left, leftMember, same⟩) new
    · rw [if_neg first, if_neg second] at same
      exact List.inj_on_of_nodup_map hashes leftMember rightMember same

theorem update_step (consistent : Consistent platform before) {token : Text} {user : User}
    (holding : Holding platform process token before)
    (kept : ∃ row ∈ before.users, row.id = user.id ∧ row.email = user.email)
    (done : exec process before
      (.updateHash user.id (hashApiKey platform (apiKeyPrefix ++ token))) () = some after) :
    (contract platform).guar process before after ∧
      ∀ command, user.email =
          platform.unicode.lower (strip platform.unicode.isSpace command.email) →
        Told platform process command (.issued user.id (apiKeyPrefix ++ token)) after := by
  simp only [exec, Option.ite_none_right_eq_some, Option.some.injEq] at done
  obtain ⟨⟨known, newHash⟩, rfl⟩ := done
  let apiKeyHash := hashApiKey platform (apiKeyPrefix ++ token)
  let after : Shared := { before with
    users := before.users.map (rehash user.id apiKeyHash)
    log := before.log ++ [⟨process, user.id, apiKeyHash⟩] }
  obtain ⟨guar, mine, logged⟩ := @commit_step _ _ after _ consistent _ holding user.id rfl rfl
    (by simpa [after, Function.comp_def] using consistent.ids)
    (by simpa [after, Function.comp_def] using consistent.emails)
    (rehash_hashes consistent.ids consistent.hashes newHash)
    (fun row member => ⟨_, List.mem_map_of_mem member, rehash_id .., rehash_email ..⟩) (by
      intro row member
      obtain ⟨earlier, there, rfl⟩ := List.mem_map.mp member
      rw [lastHash_snoc, rehash_id]
      by_cases mine : earlier.id = user.id
      · rw [if_pos mine.symm, rehash, if_pos mine]
      · rw [if_neg (Ne.symm mine), rehash, if_neg mine]
        exact consistent.held earlier there)
  refine ⟨guar, ?_⟩
  intro command named
  obtain ⟨row, there, sameId, sameEmail⟩ := kept
  exact ⟨mine, logged, _, List.mem_map_of_mem there, (rehash_id ..).trans sameId,
    (rehash_email ..).trans (sameEmail.trans named)⟩

end Steps

theorem createUser_safe {platform : Platform} (sane : Sane platform) (process : Nat)
    (command : Command) (shared : Shared) :
    Safe (scripts platform) (contract platform) process (Told platform process command)
      (createUser platform command) shared := by
  have stable := holding_stable sane process
  have ends : ∀ outcome state, Told platform process command outcome state →
      Safe (scripts platform) (contract platform) process (Told platform process command)
        (.ret outcome) state := by
    intro outcome state told
    have stands : Stable (contract platform) process (Told platform process command outcome) :=
      fun before after _ _ moved told => told_onward moved.1 told
    exact safe_ret stands told fun _ _ held => held
  refine safe_op (stable_const True) trivial fun later token after consistent _ done _ => ?_
  obtain ⟨guar, clean, holding⟩ := draw_step sane consistent done
  refine ⟨guar, ?_⟩
  refine safe_op (stable token) holding fun later row after consistent holding done _ => ?_
  simp only [scripts, exec, Option.ite_none_right_eq_some, Option.some.injEq] at done
  obtain ⟨found, rfl⟩ := done
  refine ⟨⟨consistent, onward_refl later, fun _ member => .inl member⟩, ?_⟩
  cases row with
  | none =>
      change Safe _ _ _ _ (if command.rotate = true then (.ret .noUser : Script Outcome)
        else .op Op.uuid4 fun id =>
          .op (Op.insertUser ⟨id, _, hashApiKey platform (apiKeyPrefix ++ token)⟩) fun _ =>
            .ret (.issued id (apiKeyPrefix ++ token))) _
      split
      · exact ends _ _ trivial
      · refine safe_op (stable token) holding fun later id after consistent holding done _ => ?_
        simp only [scripts, exec, Option.ite_none_right_eq_some, Option.some.injEq] at done
        obtain ⟨_, rfl⟩ := done
        refine ⟨⟨consistent, onward_refl later, fun _ member => .inl member⟩, ?_⟩
        refine safe_op (stable token) holding fun later _ after consistent holding done _ => ?_
        obtain ⟨guar, told⟩ := insert_step consistent holding done
        exact ⟨guar, ends _ _ (told command rfl)⟩
  | some user =>
      change Safe _ _ _ _ (if command.rotate = false then (.ret .userExists : Script Outcome)
        else .op (Op.updateHash user.id (hashApiKey platform (apiKeyPrefix ++ token))) fun _ =>
          .ret (.issued user.id (apiKeyPrefix ++ token))) _
      split
      · exact ends _ _ trivial
      · have named := List.find?_some found.symm
        have member := List.mem_of_find?_eq_some found.symm
        rw [decide_eq_true_eq] at named
        -- The row may change meanwhile, but neither go nor get another id or email.
        have row_stable : Stable (contract platform) process fun state =>
            ∃ row ∈ state.users, row.id = user.id ∧ row.email = user.email := by
          rintro before after _ _ ⟨onward, _⟩ ⟨row, there, sameId, sameEmail⟩
          obtain ⟨last, here, lastId, lastEmail⟩ := onward.rows row there
          exact ⟨last, here, lastId.trans sameId, lastEmail.trans sameEmail⟩
        refine safe_op (stable_and (stable token) row_stable) ⟨holding, user, member, rfl, rfl⟩
          fun later _ after consistent held done _ => ?_
        obtain ⟨guar, told⟩ := update_step consistent held.1 held.2 done
        exact ⟨guar, ends _ _ (told command named)⟩

theorem scripts_compose (platform : Platform) :
    Composes (scripts platform) (contract platform) := by
  constructor
  · exact fun _ _ _ _ guar => guar.1
  · rintro process other before after different _ ⟨_, onward, mine⟩
    refine ⟨onward, fun issue member => ?_⟩
    rcases mine issue member with earlier | theirs
    · exact .inl earlier
    · exact .inr fun same => different (same.symm.trans theirs)
  · exact fun _ event => event.elim
  · exact fun _ _ event => event.elim

/-- A run keeps the table consistent and takes nothing back. -/
theorem run_onward {platform : Platform} (sane : Sane platform) {before after : ScriptsConfig}
    {labels : List ScriptsLabel} (run : Run (Step (scripts platform)) before labels after)
    (all : AllSafe (scripts platform) (contract platform) before) :
    AllSafe (scripts platform) (contract platform) after ∧ Onward before.shared after.shared := by
  induction run with
  | refl => exact ⟨all, onward_refl _⟩
  | @next middle after labels label _ taken ih =>
      obtain ⟨safe, onward⟩ := ih
      obtain ⟨later, kept⟩ := step_safe (scripts_compose platform)
        (fun process command shared _ _ _ => createUser_safe sane process command shared)
        safe taken trivial
      refine ⟨later, onward_trans onward ?_⟩
      cases label with
      | act process request answer => exact kept.2.1
      | start process command => exact kept ▸ onward_refl _
      | fail process => exact kept ▸ onward_refl _
      | finish process command outcome => exact kept.1 ▸ onward_refl _
      | env event => exact event.elim

/-- What the header check makes of a table. -/
structure Authenticates (platform : Platform) (shared : Shared) : Prop where
  /-- a user is let in with the key of the last commit for them, and with no other -/
  exact : ∀ authorization user,
    getCurrentUser platform shared.users authorization = .ok user ↔
      user ∈ shared.users ∧
        ∃ apiKey, Current platform shared user.id apiKey ∧ Presents platform authorization apiKey
  /-- a key that is no longer its user's is nobody's -/
  revoked : ∀ process userId apiKey, Drawn shared process apiKey →
    ⟨process, userId, hashApiKey platform apiKey⟩ ∈ shared.log →
      ¬ Current platform shared userId apiKey → ∀ authorization,
        Presents platform authorization apiKey →
          getCurrentUser platform shared.users authorization = .error unauthorized
  /-- one row for each email -/
  alone : (shared.users.map (·.email)).Nodup

theorem find_hash {users : List User} (hashes : (users.map (·.apiKeyHash)).Nodup) (user : User)
    (apiKeyHash : Text) :
    users.find? (·.apiKeyHash = apiKeyHash) = some user ↔
      user ∈ users ∧ user.apiKeyHash = apiKeyHash := by
  constructor
  · intro found
    have named := List.find?_some found
    rw [decide_eq_true_eq] at named
    exact ⟨List.mem_of_find?_eq_some found, named⟩
  · rintro ⟨member, rfl⟩
    cases found : users.find? (·.apiKeyHash = user.apiKeyHash) with
    | none =>
        have other := List.find?_eq_none.mp found user member
        simp at other
    | some row =>
        have named := List.find?_some found
        rw [decide_eq_true_eq] at named
        exact congrArg some
          (List.inj_on_of_nodup_map hashes (List.mem_of_find?_eq_some found) member named)

theorem getCurrentUser_ok {platform : Platform} {users : List User} {user : User}
    (hashes : (users.map (·.apiKeyHash)).Nodup) (authorization : Option Text) :
    getCurrentUser platform users authorization = .ok user ↔
      platform.unicode.lower (partition (authorization.getD [])).1 = "bearer".toList ∧
      apiKeyPrefix <+: (partition (authorization.getD [])).2 ∧ user ∈ users ∧
      user.apiKeyHash = hashApiKey platform
        (strip platform.unicode.isSpace (partition (authorization.getD [])).2) := by
  unfold getCurrentUser
  dsimp only
  by_cases refused : platform.unicode.lower (partition (authorization.getD [])).1 ≠
      "bearer".toList ∨ ¬ apiKeyPrefix <+: (partition (authorization.getD [])).2
  · rw [if_pos refused]
    constructor
    · intro wrong
      cases wrong
    · rintro ⟨bearer, begins, _⟩
      rcases refused with other | without
      · exact absurd bearer other
      · exact absurd begins without
  · rw [if_neg refused]
    obtain ⟨bearer, begins⟩ := not_or.mp refused
    rw [← find_hash hashes]
    constructor
    · intro found
      split at found
      · cases found
      · rename_i row same
        cases found
        exact ⟨not_not.mp bearer, not_not.mp begins, same⟩
    · rintro ⟨_, _, found⟩
      rw [found]

theorem consistent_authenticates {platform : Platform} (sane : Sane platform) {shared : Shared}
    (consistent : Consistent platform shared) : Authenticates platform shared := by
  have injective := hashApiKey_injective sane
  have exact_key : ∀ authorization user,
      getCurrentUser platform shared.users authorization = .ok user ↔
        user ∈ shared.users ∧ ∃ apiKey, Current platform shared user.id apiKey ∧
          Presents platform authorization apiKey := by
    intro authorization user
    rw [getCurrentUser_ok consistent.hashes]
    constructor
    · rintro ⟨bearer, begins, member, hash⟩
      have last := consistent.held user member
      obtain ⟨issue, logged, _, committed⟩ := lastHash_mem last
      obtain ⟨_, ⟨token, drawn, rfl⟩, origin⟩ := consistent.origin issue logged
      rw [committed, hash] at origin
      have same := injective origin
      refine ⟨member, apiKeyPrefix ++ token, ⟨⟨issue.process, token, drawn, rfl⟩, ?_⟩, ?_⟩
      · rw [last, hash, same]
      · exact (presents_iff sane (consistent.clean _ drawn) authorization).mp
          ⟨bearer, begins, same⟩
    · rintro ⟨member, _, ⟨⟨process, token, drawn, rfl⟩, last⟩, presents⟩
      obtain ⟨bearer, begins, same⟩ :=
        (presents_iff sane (consistent.clean _ drawn) authorization).mpr presents
      rw [consistent.held user member] at last
      exact ⟨bearer, begins, member, by rw [same]; exact Option.some.inj last⟩
  refine ⟨exact_key, ?_, consistent.emails⟩
  rintro process userId _ ⟨token, drawn, rfl⟩ logged outdated authorization presents
  obtain ⟨_, _, same⟩ := (presents_iff sane (consistent.clean _ drawn) authorization).mpr presents
  cases answer : getCurrentUser platform shared.users authorization with
  | error response =>
      unfold getCurrentUser at answer
      dsimp only at answer
      split at answer
      · cases answer
        rfl
      · split at answer <;> cases answer
        rfl
  | ok user =>
      -- the key would be its new user's last one, and every hash is committed once
      obtain ⟨_, _, ⟨⟨other, mine, owned, rfl⟩, last⟩, carries⟩ :=
        (exact_key authorization user).mp answer
      obtain ⟨_, _, also⟩ :=
        (presents_iff sane (consistent.clean _ owned) authorization).mpr carries
      rw [same] at also
      rw [← also] at last
      obtain ⟨issue, there, named, committed⟩ := lastHash_mem last
      have equal := List.inj_on_of_nodup_map consistent.fresh there logged committed
      rw [equal] at named
      rw [← named] at last
      exact absurd ⟨⟨process, token, drawn, rfl⟩, last⟩ outdated

theorem migrated_safe (platform : Platform) :
    AllSafe (scripts platform) (contract platform) migrated := by
  constructor
  · constructor <;> simp [migrated]
  · intro process command rest running
    cases running

/-- Whatever processes ran, and however they interleaved or died, the header
check lets in the holders of the current keys, and what a process printed is
what it committed. -/
theorem keys_authenticate (platform : Platform) (sane : Sane platform) (labels : List ScriptsLabel)
    (after : ScriptsConfig) (run : Run (Step (scripts platform)) migrated labels after) :
    Authenticates platform after.shared ∧
      ∀ process command outcome, .finish process command outcome ∈ labels →
        Told platform process command outcome after.shared := by
  have all := migrated_safe platform
  constructor
  · exact consistent_authenticates sane (run_onward sane run all).1.inv
  · intro process command outcome member
    obtain ⟨_, _, left, right, _, before, taken, rest⟩ := run_member run member
    have safe := (run_onward sane before all).1
    obtain ⟨later, same, told⟩ := step_safe (scripts_compose platform)
      (fun process command shared _ _ _ => createUser_safe sane process command shared)
      safe taken trivial
    exact told_onward (run_onward sane rest later).2 (same ▸ told)

def smallToken (character : Char) : Text := List.replicate 43 character

def oracle (token : Text) (id : Uuid) (shared : Shared) : (request : Op) → Option (Res request)
  | .tokenUrlsafe => some token
  | .uuid4 => some id
  | .selectByEmail email => some (shared.users.find? (·.email = email))
  | .insertUser _ => some ()
  | .updateHash _ _ => some ()

def firstUser : List (Move Shared Nat Command Empty Op Res) :=
  let first := .act 0 (oracle (smallToken 'a') 1)
  [.start 0 ⟨['a'], false⟩, first, first, first, first, .finish 0]

/-- One process creates a user; the second rotates the user's key and the third, which has read
the same row, dies before its commit. -/
def rotatedOnce : List (Move Shared Nat Command Empty Op Res) :=
  let second := .act 1 (oracle (smallToken 'b') 2)
  let third := .act 2 (oracle (smallToken 'c') 3)
  firstUser ++ [.start 1 ⟨['A', ' '], true⟩, .start 2 ⟨['a'], true⟩, second, third, second, third,
    second, .fail 2, .finish 1]

def opens (shared : Shared) (character : Char) : Bool :=
  match getCurrentUser plain shared.users
      (some ("Bearer ".toList ++ apiKeyPrefix ++ smallToken character)) with
  | .ok user => decide (user.id = 1)
  | .error _ => false

theorem plain_sane : Sane plain := by
  constructor
  · exact plain_sha256Hex
  · intro character clean
    by_contra blank
    rw [Bool.not_eq_false] at blank
    have listed : character ∈ [' ', '\t', '\n', '\x0b', '\x0c', '\r'] := by
      simpa [plain] using blank
    have outside : [' ', '\t', '\n', '\x0b', '\x0c', '\r'].all (!urlsafe ·) = true := by decide
    have other := List.all_eq_true.mp outside character listed
    rw [clean] at other
    cases other

theorem keys_authenticate_rotated : ∃ labels after,
    Run (Step (scripts plain)) migrated labels after ∧
      Authenticates plain after.shared ∧ after.shared.drawn.length = 3 ∧
      opens after.shared 'a' = false ∧ opens after.shared 'b' = true ∧
      opens after.shared 'c' = false := by
  obtain ⟨labels, after, run, checked⟩ := drive_reaches (scripts plain) migrated rotatedOnce
    (fun _ after => decide (after.shared.drawn.length = 3 ∧ opens after.shared 'a' = false ∧
      opens after.shared 'b' = true ∧ opens after.shared 'c' = false)) (by decide +kernel)
  exact ⟨labels, after, run, (keys_authenticate plain plain_sane labels after run).1,
    of_decide_eq_true checked⟩

end SecureFileSystem.Accounts
