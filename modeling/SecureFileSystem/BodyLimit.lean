import SecureFileSystem.Asgi
import SecureFileSystem.StorageNode

/-!
`middleware.py`, `BodySizeLimitMiddleware`: a request body is cut off as its
bytes arrive. Whatever the application does with the error, it never sees more
than the limit and the client gets one response at most; below the limit it
cannot tell that the middleware is there, unless the declared length has more
digits than `int` reads.
-/

namespace SecureFileSystem.BodyLimit

open Base TextCodec Asgi
open StorageNode (latin1 maxStrDigits)

inductive Message where
  | request (body : Option Bytes) (moreBody : Bool)
  | disconnect
  | responseStart (status : Nat) (headers : List (Bytes × Bytes))
  | responseBody (body : Bytes) (moreBody : Bool)
  /-- any other type, such as `http.response.trailers` -/
  | other (kind : Text)
  deriving DecidableEq

inductive Raised where
  | bodyTooLarge
  | valueError
  | other (name : Text)
  deriving DecidableEq

structure HttpScope where
  method : Text
  path : Text
  headers : List (Bytes × Bytes)

inductive Scope where
  | http (request : HttpScope)
  | websocket
  | lifespan

structure Middleware where
  defaultMaxBytes : Nat
  /-- Python `dict`; keys are distinct -/
  overrides : List ((Text × Text) × Nat)

structure Server where
  unread : List Message
  outbox : List Message
  deriving DecidableEq

def receive (server : Server) : Option (Except Raised Message × Server) :=
  match server.unread with
  | [] => none
  | message :: rest => some (.ok message, { server with unread := rest })

def send (server : Server) (message : Message) : Server :=
  { server with outbox := server.outbox ++ [message] }

def direct : Channel Message Raised Server := ⟨receive, send⟩

/-- The server and the two variables of `__call__`. -/
structure Limited where
  server : Server
  received : Nat
  responseStarted : Bool
  deriving DecidableEq

def bodyLength : Message → Nat
  | .request body _ => (body.getD []).length
  | _ => 0

def isRequest : Message → Bool
  | .request _ _ => true
  | _ => false

def isStart : Message → Bool
  | .responseStart _ _ => true
  | _ => false

def limitedReceive (limit : Nat) (limited : Limited) : Option (Except Raised Message × Limited) :=
  match receive limited.server with
  | none => none
  | some (.error error, server) => some (.error error, { limited with server := server })
  | some (.ok message, server) =>
      let received := limited.received + bodyLength message
      let after := { limited with server := server, received := received }
      if isRequest message = true ∧ limit < received then some (.error .bodyTooLarge, after)
      else some (.ok message, after)

def trackingSend (limited : Limited) (message : Message) : Limited :=
  { limited with
    server := send limited.server message
    responseStarted := limited.responseStarted || isStart message }

def limitedChannel (limit : Nat) : Channel Message Raised Limited :=
  ⟨limitedReceive limit, trackingSend⟩

def contentLength : Bytes := utf8 "content-length".toList

def tooLargeBody : Bytes := utf8 "\x7b\"detail\": \"request body too large\"\x7d".toList

def send413 (server : Server) : Server :=
  send (send server (.responseStart 413
    [(utf8 "content-type".toList, utf8 "application/json".toList),
      (contentLength, utf8 (decimal tooLargeBody.length))])) (.responseBody tooLargeBody false)

def Middleware.limit (middleware : Middleware) (request : HttpScope) : Nat :=
  (middleware.overrides.lookup (request.method, request.path)).getD middleware.defaultMaxBytes

/-- `dict(headers).get(name, b"")`: the last value of a repeated name stays. -/
def header (request : HttpScope) (name : Bytes) : Bytes :=
  ((request.headers.reverse.find? (·.1 = name)).map (·.2)).getD []

def isdigit (declared : Bytes) : Bool :=
  declared ≠ [] && declared.all fun byte => decide (48 ≤ byte) && decide (byte ≤ 57)

def size (declared : Bytes) : Nat := decimalValue (latin1 declared)

def declaredOver (declared : Bytes) (limit : Nat) : Except Raised Bool :=
  if isdigit declared then
    if declared.length ≤ maxStrDigits then .ok (limit < size declared) else .error .valueError
  else .ok false

/-- How far a request has come: the calls of the application, what the server
has yet to deliver and was sent, and how the middleware ended, if it has. -/
structure Progress where
  history : List (Event Message Raised)
  server : Server
  ended : Option (Option Raised)
  deriving DecidableEq

def finished (app : Application Message Raised) (history : List (Event Message Raised)) :
    Option (Option Raised) :=
  match app history with
  | .finish error => some error
  | _ => none

def callDirect (app : Application Message Raised) (server : Server) (count : Nat) : Progress :=
  let session := serve direct app server count
  ⟨session.history, session.server, finished app session.history⟩

def callLimited (limit : Nat) (app : Application Message Raised) (server : Server) (count : Nat) :
    Progress :=
  let session := serve (limitedChannel limit) app ⟨server, 0, false⟩ count
  match finished app session.history with
  | some (some .bodyTooLarge) =>
      if session.server.responseStarted then ⟨session.history, session.server.server, some none⟩
      else ⟨session.history, send413 session.server.server, some none⟩
  | ended => ⟨session.history, session.server.server, ended⟩

def Middleware.call (middleware : Middleware) (app : Scope → Application Message Raised)
    (scope : Scope) (server : Server) (count : Nat) : Progress :=
  match scope with
  | .websocket | .lifespan => callDirect (app scope) server count
  | .http request =>
      let limit := middleware.limit request
      match declaredOver (header request contentLength) limit with
      | .error error => ⟨[], server, some (some error)⟩
      | .ok true => ⟨[], send413 server, some none⟩
      | .ok false => callLimited limit (app scope) server count

def multipartOverheadBytes : Nat := 64 * 1024
def defaultBodyLimitBytes : Nat := 64 * 1024

/-- The middleware of `create_app`. -/
def createAppLimit (maxUploadBytes : Nat) : Middleware where
  defaultMaxBytes := defaultBodyLimitBytes
  overrides := [(("POST".toList, "/files".toList), maxUploadBytes + multipartOverheadBytes)]

def totalBytes (messages : List Message) : Nat := (messages.map bodyLength).sum

def starts (messages : List Message) : Nat := messages.countP isStart

@[simp] theorem totalBytes_append (messages : List Message) (message : Message) :
    totalBytes (messages ++ [message]) = totalBytes messages + bodyLength message := by
  simp [totalBytes]

@[simp] theorem totalBytes_cons (message : Message) (messages : List Message) :
    totalBytes (message :: messages) = bodyLength message + totalBytes messages := by
  simp [totalBytes]

@[simp] theorem starts_append (front rest : List Message) :
    starts (front ++ rest) = starts front + starts rest := List.countP_append

/-- Whatever it receives, the application starts one response at most. -/
def StartsOnce (app : Application Message Raised) : Prop :=
  ∀ history, Played (· = .bodyTooLarge) app history → starts (sends history) ≤ 1

theorem limitedReceive_cases {limit : Nat} {limited after : Limited}
    {outcome : Except Raised Message}
    (answer : limitedReceive limit limited = some (outcome, after)) :
    ∃ message rest, limited.server.unread = message :: rest ∧
      after = ⟨⟨rest, limited.server.outbox⟩, limited.received + bodyLength message,
        limited.responseStarted⟩ ∧
      ((outcome = .error .bodyTooLarge ∧ isRequest message = true ∧
          limit < limited.received + bodyLength message) ∨
        (outcome = .ok message ∧
          (isRequest message = true → limited.received + bodyLength message ≤ limit))) := by
  unfold limitedReceive receive at answer
  cases unread : limited.server.unread with
  | nil =>
      rw [unread] at answer
      cases answer
  | cons message rest =>
      rw [unread] at answer
      dsimp only at answer
      refine ⟨message, rest, rfl, ?_⟩
      by_cases over_limit : isRequest message = true ∧ limit < limited.received + bodyLength message
      · rw [if_pos over_limit] at answer
        cases answer
        exact ⟨rfl, .inl ⟨rfl, over_limit⟩⟩
      · rw [if_neg over_limit] at answer
        cases answer
        refine ⟨rfl, .inr ⟨rfl, ?_⟩⟩
        intro request
        by_contra above
        exact over_limit ⟨request, Nat.lt_of_not_le above⟩

theorem bodyLength_other {message : Message} (kind : isRequest message ≠ true) :
    bodyLength message = 0 := by
  cases message with
  | request body moreBody => exact absurd rfl kind
  | _ => rfl

/-- The two variables say what they are named for; past the limit the count
goes on, and nothing more is seen. -/
structure Counted (limit : Nat) (history : List (Event Message Raised)) (limited : Limited) :
    Prop where
  outbox : limited.server.outbox = sends history
  started : limited.responseStarted = (sends history).any isStart
  below : totalBytes (seen history) ≤ limit
  exact : limited.received ≤ limit → limited.received = totalBytes (seen history)

theorem limited_counts (limit : Nat) (app : Application Message Raised) :
    Keeps (limitedChannel limit) app (Counted limit) := by
  constructor
  · intro history limited message after counted _ answer
    obtain ⟨head, rest, _, rfl, ⟨failed, _⟩ | ⟨same, within⟩⟩ := limitedReceive_cases answer
    · cases failed
    · cases same
      constructor
      · simpa using counted.outbox
      · simpa using counted.started
      · rw [seen_received, totalBytes_append]
        by_cases request : isRequest message = true
        · have seenAll := counted.exact (Nat.le_of_add_right_le (within request))
          rw [← seenAll]
          exact within request
        · rw [bodyLength_other request]
          exact counted.below
      · intro below
        rw [seen_received, totalBytes_append, counted.exact (Nat.le_of_add_right_le below)]
  · intro history limited error after counted _ answer
    obtain ⟨head, rest, _, rfl, ⟨_, _, above⟩ | ⟨failed, _⟩⟩ := limitedReceive_cases answer
    · constructor
      · simpa using counted.outbox
      · simpa using counted.started
      · simpa using counted.below
      · intro below
        exact absurd below (Nat.not_le_of_lt above)
    · cases failed
  · intro history limited message counted _
    constructor
    · change limited.server.outbox ++ [message] = _
      rw [sends_sent, counted.outbox]
    · change (limited.responseStarted || isStart message) = _
      simp [counted.started]
    · simpa using counted.below
    · intro below
      rw [seen_sent]
      exact counted.exact below

theorem counted_serve (limit : Nat) (app : Application Message Raised) (inbox : List Message)
    (count : Nat) :
    Counted limit (serve (limitedChannel limit) app ⟨⟨inbox, []⟩, 0, false⟩ count).history
      (serve (limitedChannel limit) app ⟨⟨inbox, []⟩, 0, false⟩ count).server :=
  serve_keeps (limited_counts limit app) _
    ⟨rfl, rfl, Nat.zero_le limit, fun _ => rfl⟩ count

/-- What the application sees and what is left make up what the client sent. -/
structure Exact (inbox : List Message) (history : List (Event Message Raised)) (server : Server) :
    Prop where
  outbox : server.outbox = sends history
  seen : seen history ++ server.unread = inbox

theorem direct_exact (app : Application Message Raised) (inbox : List Message) :
    Keeps direct app (Exact inbox) := by
  constructor
  · intro history server message after exact _ answer
    change receive server = _ at answer
    unfold receive at answer
    cases unread : server.unread with
    | nil =>
        rw [unread] at answer
        cases answer
    | cons head rest =>
        rw [unread] at answer
        cases answer
        constructor
        · simpa using exact.outbox
        · rw [seen_received, List.append_assoc, List.singleton_append, ← exact.seen, unread]
  · intro history server error after _ _ answer
    change receive server = _ at answer
    unfold receive at answer
    cases unread : server.unread with
    | nil =>
        rw [unread] at answer
        cases answer
    | cons head rest =>
        rw [unread] at answer
        cases answer
  · intro history server message exact _
    constructor
    · change server.outbox ++ [message] = _
      rw [sends_sent, exact.outbox]
    · rw [seen_sent]
      exact exact.seen

/-- Within the limit nothing is ever refused. -/
theorem limited_agrees (limit : Nat) :
    Agree (limitedChannel limit) direct fun limited server =>
      limited.server = server ∧ limited.received + totalBytes server.unread ≤ limit := by
  constructor
  · rintro limited server ⟨rfl, _⟩ waits
    change limitedReceive limit limited = none at waits
    change receive limited.server = none
    unfold limitedReceive at waits
    cases got : receive limited.server with
    | none => rfl
    | some answer =>
        obtain ⟨outcome, after⟩ := answer
        rw [got] at waits
        cases outcome with
        | error error => cases waits
        | ok message =>
            dsimp only at waits
            split at waits <;> cases waits
  · rintro limited server outcome after ⟨rfl, fits⟩ answer
    obtain ⟨message, rest, unread, rfl, split⟩ := limitedReceive_cases answer
    have bound : limited.received + bodyLength message + totalBytes rest ≤ limit := by
      rw [unread, totalBytes_cons, ← Nat.add_assoc] at fits
      exact fits
    obtain ⟨_, _, above⟩ | ⟨rfl, _⟩ := split
    · omega
    · refine ⟨⟨rest, limited.server.outbox⟩, ?_, rfl, bound⟩
      change receive limited.server = _
      simp [receive, unread]
  · rintro limited server message ⟨rfl, fits⟩
    exact ⟨rfl, fits⟩

theorem finished_limited {limit : Nat} {app : Application Message Raised} {server : Server}
    {count : Nat} (ended : finished app
      (serve (limitedChannel limit) app ⟨server, 0, false⟩ count).history ≠
        some (some .bodyTooLarge)) :
    callLimited limit app server count =
      ⟨(serve (limitedChannel limit) app ⟨server, 0, false⟩ count).history,
        (serve (limitedChannel limit) app ⟨server, 0, false⟩ count).server.server,
        finished app (serve (limitedChannel limit) app ⟨server, 0, false⟩ count).history⟩ := by
  unfold callLimited
  dsimp only
  split
  · contradiction
  · rfl

theorem callLimited_cases (limit : Nat) (app : Application Message Raised) (server : Server)
    (count : Nat) :
    (callLimited limit app server count).history =
        (serve (limitedChannel limit) app ⟨server, 0, false⟩ count).history ∧
      (callLimited limit app server count).server.unread =
        (serve (limitedChannel limit) app ⟨server, 0, false⟩ count).server.server.unread ∧
      ∃ answer, (callLimited limit app server count).server.outbox =
          (serve (limitedChannel limit) app ⟨server, 0, false⟩ count).server.server.outbox ++
            answer ∧
        (starts answer = 0 ∨ starts answer = 1 ∧
          (serve (limitedChannel limit) app ⟨server, 0, false⟩ count).server.responseStarted =
            false) := by
  unfold callLimited
  dsimp only
  split
  · split
    · exact ⟨rfl, rfl, [], by simp, .inl rfl⟩
    · refine ⟨rfl, rfl, (send413 ⟨[], []⟩).outbox, ?_, .inr ⟨rfl, by simp_all⟩⟩
      simp [send413, send]
  · exact ⟨rfl, rfl, [], by simp, .inl rfl⟩

theorem limited_sound (limit : Nat) (app : Application Message Raised) (inbox : List Message)
    (count : Nat) :
    totalBytes (seen (callLimited limit app ⟨inbox, []⟩ count).history) ≤ limit := by
  rw [(callLimited_cases limit app ⟨inbox, []⟩ count).1]
  exact (counted_serve limit app inbox count).below

theorem limited_once {app : Application Message Raised} (once : StartsOnce app) (limit : Nat)
    (inbox : List Message) (count : Nat) :
    starts (callLimited limit app ⟨inbox, []⟩ count).server.outbox ≤ 1 := by
  obtain ⟨_, _, answer, outbox, started⟩ := callLimited_cases limit app ⟨inbox, []⟩ count
  have counted := counted_serve limit app inbox count
  rw [outbox, starts_append, counted.outbox]
  obtain none | ⟨one, unstarted⟩ := started
  · rw [none]
    apply once
    apply played_serve
    intro limited error after refused
    obtain ⟨_, _, _, _, ⟨failed, _⟩ | ⟨failed, _⟩⟩ := limitedReceive_cases refused
    · cases failed
      rfl
    · cases failed
  · -- the application has sent no start, so the 413 is the only one
    rw [counted.started, List.any_eq_false] at unstarted
    have silent : starts (sends
        (serve (limitedChannel limit) app ⟨⟨inbox, []⟩, 0, false⟩ count).history) = 0 := by
      apply List.countP_eq_zero.mpr
      exact unstarted
    rw [silent, one]

structure Transparent (inbox : List Message) (direct limited : Progress) : Prop where
  history : limited.history = direct.history
  seen : seen limited.history ++ limited.server.unread = inbox
  sends : sends limited.history <+: limited.server.outbox
  same : direct.ended ≠ some (some .bodyTooLarge) → limited = direct

theorem limited_transparent {limit : Nat} {inbox : List Message}
    (fits : totalBytes inbox ≤ limit) (app : Application Message Raised) (count : Nat) :
    Transparent inbox (callDirect app ⟨inbox, []⟩ count)
      (callLimited limit app ⟨inbox, []⟩ count) := by
  obtain ⟨sameHistory, sameServer, _⟩ := serve_agree (limited_agrees limit) app
    ⟨⟨inbox, []⟩, 0, false⟩ ⟨inbox, []⟩ ⟨rfl, by simpa using fits⟩ count
  have exact := serve_keeps (direct_exact app inbox) ⟨inbox, []⟩ ⟨rfl, rfl⟩ count
  obtain ⟨history, unread, answer, outbox, _⟩ := callLimited_cases limit app ⟨inbox, []⟩ count
  constructor
  · rw [history, sameHistory]
    rfl
  · rw [history, unread, sameHistory, sameServer]
    exact exact.seen
  · rw [history, outbox, sameHistory, sameServer, exact.outbox]
    exact List.prefix_append _ answer
  · intro ended
    change finished app (serve direct app ⟨inbox, []⟩ count).history ≠ _ at ended
    rw [← sameHistory] at ended
    rw [finished_limited ended, sameHistory, sameServer]
    rfl

def Undeclared (middleware : Middleware) (request : HttpScope) : Prop :=
  ∀ declared, (contentLength, declared) ∈ request.headers → isdigit declared = true →
    size declared ≤ middleware.limit request

/-- The limit holds, the application is left alone within it, and the client
gets one response at most. -/
structure Protects (middleware : Middleware) (request : HttpScope) : Prop where
  sound : ∀ (app : Scope → Application Message Raised) (inbox : List Message) (count : Nat),
    totalBytes (seen (middleware.call app (.http request) ⟨inbox, []⟩ count).history) ≤
      middleware.limit request
  transparent : ∀ (app : Scope → Application Message Raised) (inbox : List Message),
    totalBytes inbox ≤ middleware.limit request → Undeclared middleware request →
      ∀ count, Transparent inbox (callDirect (app (.http request)) ⟨inbox, []⟩ count)
        (middleware.call app (.http request) ⟨inbox, []⟩ count)
  once : ∀ app : Scope → Application Message Raised, StartsOnce (app (.http request)) →
    ∀ (inbox : List Message) (count : Nat),
      starts (middleware.call app (.http request) ⟨inbox, []⟩ count).server.outbox ≤ 1

/-- `int` raises: the header is taken for a number, and has too many digits. -/
def Unread (request : HttpScope) : Prop :=
  isdigit (header request contentLength) = true ∧
    maxStrDigits < (header request contentLength).length

theorem header_mem {request : HttpScope} {name : Bytes} (given : header request name ≠ []) :
    (name, header request name) ∈ request.headers := by
  unfold header at *
  cases found : request.headers.reverse.find? (·.1 = name) with
  | none =>
      rw [found] at given
      exact absurd rfl given
  | some entry =>
      have named := List.find?_some found
      have member := List.mem_of_find?_eq_some found
      rw [decide_eq_true_eq] at named
      rw [← named]
      exact List.mem_reverse.mp member

theorem isdigit_given {declared : Bytes} (digits : isdigit declared = true) : declared ≠ [] := by
  rintro rfl
  cases digits

theorem declaredOver_cases (declared : Bytes) (limit : Nat) :
    (declaredOver declared limit = .error .valueError ∧ isdigit declared = true ∧
        maxStrDigits < declared.length) ∨
      (declaredOver declared limit = .ok true ∧ isdigit declared = true ∧
        limit < size declared) ∨
      declaredOver declared limit = .ok false := by
  unfold declaredOver
  by_cases digits : isdigit declared = true
  · rw [if_pos digits]
    by_cases short : declared.length ≤ maxStrDigits
    · rw [if_pos short]
      by_cases above : limit < size declared
      · exact .inr (.inl ⟨by rw [decide_eq_true above], digits, above⟩)
      · exact .inr (.inr (by rw [decide_eq_false above]))
    · rw [if_neg short]
      exact .inl ⟨rfl, digits, Nat.lt_of_not_le short⟩
  · rw [if_neg digits]
    exact .inr (.inr rfl)

section Branches

variable {middleware : Middleware} {request : HttpScope} (app : Scope → Application Message Raised)
  (server : Server) (count : Nat)

theorem call_raises (raises : declaredOver (header request contentLength)
    (middleware.limit request) = .error .valueError) :
    middleware.call app (.http request) server count =
      ⟨[], server, some (some .valueError)⟩ := by
  simp only [Middleware.call, raises]

theorem call_refuses (refuses : declaredOver (header request contentLength)
    (middleware.limit request) = .ok true) :
    middleware.call app (.http request) server count = ⟨[], send413 server, some none⟩ := by
  simp only [Middleware.call, refuses]

theorem call_passes (passes : declaredOver (header request contentLength)
    (middleware.limit request) = .ok false) :
    middleware.call app (.http request) server count =
      callLimited (middleware.limit request) (app (.http request)) server count := by
  simp only [Middleware.call, passes]

end Branches

def receiveOnce (_ : Scope) : Application Message Raised
  | [] => .receive
  | _ :: _ => .finish none

/-- The application never runs, though it would have had a body to receive. -/
theorem unread_unprotected {middleware : Middleware} {request : HttpScope} (unread : Unread request)
    (undeclared : Undeclared middleware request) : ¬ Protects middleware request := by
  intro protects
  have raises : declaredOver (header request contentLength) (middleware.limit request) =
      .error .valueError := by
    rw [declaredOver, if_pos unread.1, if_neg (Nat.not_le_of_lt unread.2)]
  have clear := protects.transparent receiveOnce [.request none false] (Nat.zero_le _)
    undeclared 1
  have blind := clear.history
  rw [call_raises _ _ _ raises] at blind
  cases blind

theorem bodyLimit_protects (middleware : Middleware) (request : HttpScope) :
    Protects middleware request ↔ ¬ (Unread request ∧ Undeclared middleware request) := by
  constructor
  · rintro protects ⟨unread, undeclared⟩
    exact unread_unprotected unread undeclared protects
  · intro readable
    obtain ⟨raises, digits, long⟩ | ⟨refuses, digits, above⟩ | passes :=
      declaredOver_cases (header request contentLength) (middleware.limit request)
    · constructor
      · intro app inbox count
        rw [call_raises _ _ _ raises]
        exact Nat.zero_le _
      · intro app inbox _ undeclared
        exact absurd ⟨⟨digits, long⟩, undeclared⟩ readable
      · intro app _ inbox count
        rw [call_raises _ _ _ raises]
        exact Nat.zero_le _
    · constructor
      · intro app inbox count
        rw [call_refuses _ _ _ refuses]
        exact Nat.zero_le _
      · intro app inbox _ undeclared
        have declared := undeclared _ (header_mem (isdigit_given digits)) digits
        exact absurd declared (Nat.not_le_of_lt above)
      · intro app _ inbox count
        rw [call_refuses _ _ _ refuses]
        exact Nat.le_refl 1
    · constructor
      · intro app inbox count
        rw [call_passes _ _ _ passes]
        exact limited_sound _ _ inbox count
      · intro app inbox fits _ count
        rw [call_passes _ _ _ passes]
        exact limited_transparent fits _ count
      · intro app once inbox count
        rw [call_passes _ _ _ passes]
        exact limited_once once _ inbox count

/-- `GET /files` without a body, its length padded to 4301 zeros. -/
def paddedRequest : HttpScope where
  method := "GET".toList
  path := "/files".toList
  headers := [(contentLength, List.replicate 4301 48)]

theorem size_zeros (count : Nat) : size (List.replicate count 48) = 0 := by
  induction count with
  | zero => rfl
  | succ count ih =>
      rw [List.replicate_succ', size, latin1, List.map_append, decimalValue,
        Nat.ofDigitChars_append]
      change Nat.ofDigitChars 10 ['0'] (size (List.replicate count 48)) = 0
      rw [ih]
      rfl

theorem header_single (method path : Text) (name value : Bytes) :
    header ⟨method, path, [(name, value)]⟩ name = value := by
  simp [header]

theorem isdigit_zeros (count : Nat) : isdigit (List.replicate (count + 1) 48) = true := by
  unfold isdigit
  rw [Bool.and_eq_true, decide_eq_true_eq, List.all_eq_true]
  constructor
  · exact List.ne_nil_of_length_eq_add_one List.length_replicate
  · intro byte member
    rw [List.eq_of_mem_replicate member]
    decide

theorem padded_unread : Unread paddedRequest := by
  unfold Unread paddedRequest
  rw [header_single, List.length_replicate]
  exact ⟨isdigit_zeros 4300, by decide⟩

theorem bodyLimit_padded : ¬ Protects (createAppLimit (100 * 1024 * 1024)) paddedRequest := by
  apply unread_unprotected padded_unread
  intro declared member _
  rw [paddedRequest, List.mem_singleton] at member
  rw [(Prod.mk.inj member).2, size_zeros]
  exact Nat.zero_le _

end SecureFileSystem.BodyLimit
