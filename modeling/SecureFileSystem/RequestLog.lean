import SecureFileSystem.Wrapping
import SecureFileSystem.BodyLimit
import SecureFileSystem.AccessLog

/-!
`middleware.py`, `AccessLogMiddleware`, around the body limit as `create_app`
stacks the two: every request that ends is logged once, with the status its
client was sent and without the signature of its URL.
-/

namespace SecureFileSystem.RequestLog

open Base Asgi Wrapping BodyLimit UrlForm
open AccessLog (redactQuery redactPair redactedQueryParams redacted)

/-- The keys of the scope that the log reads; `client` is its host. -/
structure Request where
  http : HttpScope
  queryString : Bytes
  client : Option Text

inductive Scope where
  | http (request : Request)
  | websocket
  | lifespan

/-- The JSON line, without its `duration_ms`. -/
structure Line where
  method : Text
  path : Text
  query : Text
  status : Nat
  client : Option Text
  deriving DecidableEq

def captureSend (status : Nat) : Message → Nat
  | .responseStart sent _ => sent
  | _ => status

/-- Its only variable is the status, 500 until a response starts. -/
def accessLog : Wrapping.Middleware Message Raised Nat where
  receive status message := (.ok message, status)
  send := captureSend
  close _ error := ([], error)

def accessLogMiddleware (app : Scope → Application Message Raised) :
    Scope → Application Message Raised
  | .http request => wrap accessLog 500 (app (.http request))
  | scope => app scope

/-- The `finally` block: reached when the application has returned or raised. -/
def logLine (app : Scope → Application Message Raised) (scope : Scope)
    (history : List (Event Message Raised)) : Option Line :=
  match scope with
  | .http request =>
      let progress := replay accessLog (app scope) 500 history
      (finished (app scope) progress.history).map fun _ =>
        { method := request.http.method
          path := request.http.path
          query := redactQuery (AccessLog.latin1 request.queryString)
          status := progress.state
          client := request.client }
  | .websocket | .lifespan => none

def tooLarge : List Message := (send413 ⟨[], []⟩).outbox

/-- The two wrapped calls and the `except` block of `BodySizeLimitMiddleware`,
over `received` and `response_started`. -/
def limiting (limit : Nat) : Wrapping.Middleware Message Raised (Nat × Bool) where
  receive := fun (received, started) message =>
    if isRequest message = true ∧ limit < received + bodyLength message then
      (.error .bodyTooLarge, received + bodyLength message, started)
    else (.ok message, received + bodyLength message, started)
  send := fun (received, started) message => (received, started || isStart message)
  close := fun (_, started) error =>
    match error with
    | some .bodyTooLarge => (if started then [] else tooLarge, none)
    | ended => ([], ended)

def refusing (history : List (Event Message Raised)) : Act Message Raised :=
  match tooLarge[(sends history).length]? with
  | some message => .send message
  | none => .finish none

def bodyLimited (middleware : BodyLimit.Middleware)
    (app : BodyLimit.Scope → Application Message Raised) : Scope → Application Message Raised
  | .websocket => app .websocket
  | .lifespan => app .lifespan
  | .http request =>
      match declaredOver (header request.http contentLength) (middleware.limit request.http) with
      | .error error => fun _ => .finish (some error)
      | .ok true => refusing
      | .ok false => wrap (limiting (middleware.limit request.http)) (0, false)
          (app (.http request.http))

def stack (middleware : BodyLimit.Middleware) (app : BodyLimit.Scope → Application Message Raised) :
    Scope → Application Message Raised :=
  accessLogMiddleware (bodyLimited middleware app)

/-- The status the client reads. -/
def statusSent (outbox : List Message) : Option Nat :=
  outbox.findSome? fun message =>
    match message with
    | .responseStart status _ => some status
    | _ => none

theorem accessLog_watching : Watching accessLog := ⟨fun _ _ => rfl, fun _ _ => rfl⟩

/-- The inner view of the body limit is the channel it was modelled by. -/
theorem limiting_agrees (limit : Nat) :
    Agree (inside (limiting limit) direct) (limitedChannel limit) fun pair limited =>
      limited = ⟨pair.1, pair.2.1, pair.2.2⟩ := by
  constructor
  · rintro ⟨server, received, started⟩ _ rfl waits
    cases unread : server.unread with
    | nil => simp [limitedChannel, limitedReceive, receive, unread]
    | cons message rest => simp [inside, direct, receive, unread] at waits
  · rintro ⟨server, received, started⟩ _ outcome ⟨after, count, begun⟩ rfl answered
    cases unread : server.unread with
    | nil => simp [inside, direct, receive, unread] at answered
    | cons message rest =>
        simp only [inside, direct, receive, unread, limiting] at answered
        simp only [limitedChannel, limitedReceive, receive, unread]
        by_cases excess : isRequest message = true ∧ limit < received + bodyLength message
        · rw [if_pos excess] at answered ⊢
          cases answered
          exact ⟨_, rfl, rfl⟩
        · rw [if_neg excess] at answered ⊢
          cases answered
          exact ⟨_, rfl, rfl⟩
  · rintro ⟨server, received, started⟩ _ message rfl
    rfl

theorem send_all (messages : List Message) (server : Server) :
    messages.foldl send server = ⟨server.unread, server.outbox ++ messages⟩ := by
  induction messages generalizing server with
  | nil => simp
  | cons message rest ih =>
      rw [List.foldl_cons, ih]
      simp [send]

section Limiting
variable {limit : Nat} {app : Application Message Raised} {inbox : List Message} {count : Nat}
  {inner : Session Message Raised (Server × Nat × Bool)}

theorem callLimited_inside
    (reached : serve (inside (limiting limit) direct) app (⟨inbox, []⟩, 0, false) count = inner) :
    callLimited limit app ⟨inbox, []⟩ count =
      match finished app inner.history with
      | some (some .bodyTooLarge) =>
          if inner.server.2.2 then ⟨inner.history, inner.server.1, some none⟩
          else ⟨inner.history, send413 inner.server.1, some none⟩
      | ended => ⟨inner.history, inner.server.1, ended⟩ := by
  obtain ⟨sameHistory, sameServer⟩ := serve_agree (limiting_agrees limit) app
    (⟨inbox, []⟩, 0, false) ⟨⟨inbox, []⟩, 0, false⟩ rfl count
  rw [reached] at sameHistory sameServer
  unfold callLimited
  dsimp only
  -- the two matches agree by unfolding only, so the last step is written out
  rewrite [← sameHistory, sameServer]
  rfl

theorem callLimited_unfinished
    (reached : serve (inside (limiting limit) direct) app (⟨inbox, []⟩, 0, false) count = inner)
    (unfinished : ∀ error, app inner.history ≠ .finish error) :
    callLimited limit app ⟨inbox, []⟩ count = ⟨inner.history, inner.server.1, none⟩ := by
  have open_still : finished app inner.history = none := by
    unfold finished
    split
    · rename_i ended
      exact absurd ended (unfinished _)
    · rfl
  rw [callLimited_inside reached, open_still]

theorem callLimited_closes
    (reached : serve (inside (limiting limit) direct) app (⟨inbox, []⟩, 0, false) count = inner)
    {error : Option Raised} (ended : app inner.history = .finish error) :
    callLimited limit app ⟨inbox, []⟩ count =
      ⟨inner.history, ⟨inner.server.1.unread,
          inner.server.1.outbox ++ ((limiting limit).close inner.server.2 error).1⟩,
        some ((limiting limit).close inner.server.2 error).2⟩ := by
  have over_now : finished app inner.history = some error := by rw [finished, ended]
  rw [callLimited_inside reached, over_now]
  by_cases large : error = some .bodyTooLarge
  · subst large
    by_cases started : inner.server.2.2 = true
    · simp [limiting, started]
    · simp [limiting, started, send413, send, tooLarge]
  · have closes : (limiting limit).close inner.server.2 error = ([], error) := by
      unfold limiting
      dsimp only
      split
      · exact absurd rfl large
      · rfl
    rw [closes, List.append_nil]
    split
    · rename_i same
      cases same
      exact absurd rfl large
    · rfl

end Limiting

/-- What the application of the limit has done, against the model of `__call__`. -/
structure Follows (app : Application Message Raised) (inbox : List Message) (count : Nat)
    (called : BodyLimit.Progress) : Prop where
  outbox : (serve direct app ⟨inbox, []⟩ count).server.outbox <+: called.server.outbox
  ended : ∀ ending, app (serve direct app ⟨inbox, []⟩ count).history = .finish ending →
    called.ended = some ending ∧ called.server = (serve direct app ⟨inbox, []⟩ count).server

theorem limiting_follows (limit : Nat) (app : Application Message Raised) (inbox : List Message)
    (count : Nat) :
    Follows (wrap (limiting limit) (0, false) app) inbox count
      (callLimited limit app ⟨inbox, []⟩ count) := by
  obtain ⟨closing, around⟩ := serve_around (limiting limit) (0, false) direct app ⟨inbox, []⟩ count
  generalize reached : serve (inside (limiting limit) direct) app (⟨inbox, []⟩, 0, false) count =
    inner at around
  have sent : (serve direct (wrap (limiting limit) (0, false) app) ⟨inbox, []⟩ count).server =
      ⟨inner.server.1.unread, inner.server.1.outbox ++ closing⟩ := by
    rw [around.server, ← send_all]
    rfl
  constructor
  · rw [sent]
    by_cases unfinished : ∀ error, app inner.history ≠ .finish error
    · rw [callLimited_unfinished reached unfinished, around_quiet around unfinished,
        List.append_nil]
    · obtain ⟨error, ended⟩ := not_forall_not.mp unfinished
      rw [callLimited_closes reached ended]
      exact (List.prefix_append_right_inj _).mpr (around_begun around ended)
  · intro ending ended
    obtain ⟨error, inner_ended, rfl, rfl⟩ := around_ended around ended
    rw [callLimited_closes reached inner_ended, sent]
    exact ⟨rfl, rfl⟩

theorem refusing_follows (inbox : List Message) (count : Nat) :
    Follows refusing inbox count ⟨[], send413 ⟨inbox, []⟩, some none⟩ := by
  have answered : send413 ⟨inbox, []⟩ = ⟨inbox, tooLarge⟩ := by simp [send413, send, tooLarge]
  have far : ∀ count, ∃ sent, sent <+: tooLarge ∧
      sends (serve direct refusing ⟨inbox, []⟩ count).history = sent ∧
      (serve direct refusing ⟨inbox, []⟩ count).server = ⟨inbox, sent⟩ := by
    intro count
    induction count with
    | zero => exact ⟨[], List.nil_prefix, rfl, rfl⟩
    | succ count ih =>
        obtain ⟨sent, prefixed, said, reached⟩ := ih
        rw [serve]
        generalize serve direct refusing ⟨inbox, []⟩ count = session at said reached
        cases next : tooLarge[sent.length]? with
        | none =>
            have stays : advance direct refusing session = session := by
              simp [advance, refusing, said, next]
            rw [stays]
            exact ⟨sent, prefixed, said, reached⟩
        | some message =>
            have goes : advance direct refusing session =
                ⟨session.history ++ [.sent message], send session.server message⟩ := by
              simp [advance, refusing, said, next, direct]
            rw [goes, sends_sent, said, reached]
            exact ⟨sent ++ [message], prefix_next prefixed next, rfl, rfl⟩
  obtain ⟨sent, prefixed, said, reached⟩ := far count
  rw [answered]
  constructor
  · rw [reached]
    exact prefixed
  · intro ending ended
    rw [refusing, said] at ended
    split at ended
    · cases ended
    · rename_i all_sent
      cases ended
      rw [reached, prefixed.eq_of_length_le (List.getElem?_eq_none_iff.mp all_sent)]
      exact ⟨rfl, rfl⟩

section Stack
variable (middleware : BodyLimit.Middleware) (app : BodyLimit.Scope → Application Message Raised)
  (request : Request) (inbox : List Message) (count : Nat)

theorem bodyLimited_follows :
    Follows (bodyLimited middleware app (.http request)) inbox count
      (middleware.call app (.http request.http) ⟨inbox, []⟩ count) := by
  unfold bodyLimited BodyLimit.Middleware.call
  dsimp only
  cases declaredOver (header request.http contentLength) (middleware.limit request.http) with
  | error error =>
      have still : serve direct (fun _ => Act.finish (some error)) ⟨inbox, []⟩ count =
          ⟨[], inbox, []⟩ := by
        induction count with
        | zero => rfl
        | succ count ih => rw [serve, ih]; rfl
      constructor
      · rw [still]
      · intro ending ended
        cases ended
        rw [still]
        exact ⟨rfl, rfl⟩
  | ok excess =>
      cases excess with
      | true => exact refusing_follows inbox count
      | false => exact limiting_follows _ _ inbox count

variable {app request} in
theorem call_once (once : StartsOnce (app (.http request.http))) :
    starts (middleware.call app (.http request.http) ⟨inbox, []⟩ count).server.outbox ≤ 1 := by
  obtain ⟨raises, _, _⟩ | ⟨refuses, _, _⟩ | passes :=
    declaredOver_cases (header request.http contentLength) (middleware.limit request.http)
  · rw [call_raises _ _ _ raises]
    exact Nat.zero_le _
  · rw [call_refuses _ _ _ refuses]
    exact Nat.le_refl 1
  · rw [call_passes _ _ _ passes]
    exact limited_once once _ inbox count

end Stack

theorem statusSent_append (front rest : List Message) :
    statusSent (front ++ rest) = (statusSent front).or (statusSent rest) := List.findSome?_append

theorem statusSent_silent {outbox : List Message} (silent : starts outbox = 0) :
    statusSent outbox = none := by
  apply List.findSome?_eq_none_iff.mpr
  intro message member
  have other := List.countP_eq_zero.mp silent message member
  cases message <;> simp_all [isStart]

/-- With one response at most, the last status noted is the one the client reads. -/
theorem noted_status {outbox : List Message} (once : starts outbox ≤ 1) :
    noted accessLog 500 outbox = (statusSent outbox).getD 500 := by
  induction outbox using List.reverseRecOn with
  | nil => rfl
  | append_singleton front last ih =>
      rw [starts_append] at once
      have before := ih (Nat.le_of_add_right_le once)
      have step : noted accessLog 500 (front ++ [last]) =
          captureSend (noted accessLog 500 front) last := by
        simp [noted, accessLog]
      rw [step, before, statusSent_append]
      cases last with
      | responseStart status headers =>
          have silent : starts front = 0 := by simpa [starts, isStart] using once
          rw [statusSent_silent silent]
          rfl
      | _ => simp [statusSent, captureSend]

theorem redactQuery_unsigned (query : Text) (pair : Text × Text)
    (member : pair ∈ parseQsl (redactQuery query)) (named : pair.1 = "sig".toList) :
    pair.2 = "REDACTED".toList := by
  rw [redactQuery, parseQsl_urlencode] at member
  obtain ⟨given, _, rfl⟩ := List.mem_map.mp member
  exact if_pos ((AccessLog.redacted_name given.1).mpr named)

/-- What a line says of the request whose client was sent these messages. -/
structure Tells (request : Request) (outbox : List Message) (line : Line) : Prop where
  method : line.method = request.http.method
  path : line.path = request.http.path
  client : line.client = request.client
  status : line.status = (statusSent outbox).getD 500
  query : line.query = redactQuery (AccessLog.latin1 request.queryString)
  unsigned : ∀ pair ∈ parseQsl line.query, pair.1 = "sig".toList → pair.2 = "REDACTED".toList

/-- What the log keeps of one request after `count` calls of the application. -/
structure Logged (middleware : BodyLimit.Middleware)
    (app : BodyLimit.Scope → Application Message Raised) (request : Request)
    (inbox : List Message) (count : Nat) (session : Session Message Raised Server) : Prop where
  /-- the client is served as by the body limit alone -/
  unnoticed : session.server =
    (serve direct (bodyLimited middleware app (.http request)) ⟨inbox, []⟩ count).server
  waiting : (∀ ending, stack middleware app (.http request) session.history ≠ .finish ending) →
    logLine (bodyLimited middleware app) (.http request) session.history = none
  ended : ∀ ending, stack middleware app (.http request) session.history = .finish ending →
    (middleware.call app (.http request.http) ⟨inbox, []⟩ count).ended = some ending ∧
    (middleware.call app (.http request.http) ⟨inbox, []⟩ count).server = session.server ∧
    ∃ line, logLine (bodyLimited middleware app) (.http request) session.history = some line ∧
      Tells request session.server.outbox line

/-- The log has one line for every request that ended and none for one that has
not, and it says what the client was told. -/
theorem requests_logged (middleware : BodyLimit.Middleware)
    (app : BodyLimit.Scope → Application Message Raised) (request : Request)
    (once : StartsOnce (app (.http request.http))) (inbox : List Message) (count : Nat) :
    Logged middleware app request inbox count
      (serve direct (stack middleware app (.http request)) ⟨inbox, []⟩ count) := by
  -- The log watches: the server sees what the inner stack does, and the record is its replay.
  have watched := watching_serve accessLog_watching 500 direct
    (bodyLimited middleware app (.http request)) ⟨inbox, []⟩ count
  have follows := bodyLimited_follows middleware app request inbox count
  change (serve direct (stack middleware app (.http request)) ⟨inbox, []⟩ count).server = _ ∧
    replay accessLog (bodyLimited middleware app (.http request)) 500
      (serve direct (stack middleware app (.http request)) ⟨inbox, []⟩ count).history = _ at watched
  generalize serve direct (stack middleware app (.http request)) ⟨inbox, []⟩ count = outer at *
  obtain ⟨sameServer, replayed⟩ := watched
  have sent := (serve_keeps (direct_exact (bodyLimited middleware app (.http request)) inbox)
    ⟨inbox, []⟩ ⟨rfl, rfl⟩ count).outbox
  have called : stack middleware app (.http request) outer.history =
      bodyLimited middleware app (.http request)
        (serve direct (bodyLimited middleware app (.http request)) ⟨inbox, []⟩ count).history := by
    change nextCall accessLog _ (replay accessLog _ 500 outer.history) = _
    rw [watching_call accessLog_watching, replayed]
  constructor
  · exact sameServer
  · intro open_still
    simp only [called] at open_still
    have unfinished : finished (bodyLimited middleware app (.http request))
        (serve direct (bodyLimited middleware app (.http request)) ⟨inbox, []⟩ count).history =
          none := by
      unfold finished
      split
      · rename_i ended
        exact absurd ended (open_still _)
      · rfl
    simp only [logLine, replayed, unfinished, Option.map_none]
  · intro ending ended
    rw [called] at ended
    obtain ⟨same, answered⟩ := follows.ended ending ended
    let line : Line :=
      { method := request.http.method
        path := request.http.path
        query := redactQuery (AccessLog.latin1 request.queryString)
        status := noted accessLog 500 (sends (serve direct
          (bodyLimited middleware app (.http request)) ⟨inbox, []⟩ count).history)
        client := request.client }
    refine ⟨same, answered.trans sameServer.symm, line, ?_, ?_⟩
    · simp only [logLine, replayed, finished, ended, Option.map_some, line]
    · have counted := call_once middleware inbox count once
      rw [answered] at counted
      constructor
      · rfl
      · rfl
      · rfl
      · rw [sameServer, sent]
        exact noted_status (by rw [← sent]; exact counted)
      · rfl
      · exact redactQuery_unsigned _

def answering (_ : BodyLimit.Scope) : Application Message Raised
  | [] => .send (.responseStart 200 [])
  | _ :: _ => .finish none

theorem answering_once (scope : BodyLimit.Scope) : StartsOnce (answering scope) := by
  intro history played
  have short : history = [] ∨ history = [.sent (.responseStart 200 [])] := by
    induction played with
    | nil => exact .inl rfl
    | received _ receives ih => obtain rfl | rfl := ih <;> cases receives
    | raised _ receives _ ih => obtain rfl | rfl := ih <;> cases receives
    | sent _ sends ih =>
        obtain rfl | rfl := ih
        · cases sends
          exact .inr rfl
        · cases sends
  obtain rfl | rfl := short <;> decide

def signedRequest : Request where
  http := ⟨"GET".toList, "/download/1".toList, []⟩
  queryString := AccessLog.plainQuery
  client := some "10.0.0.1".toList

theorem requests_logged_signed :
    Logged (createAppLimit 100) answering signedRequest [] 2
      (serve direct (stack (createAppLimit 100) answering (.http signedRequest)) ⟨[], []⟩ 2) :=
  requests_logged (createAppLimit 100) answering signedRequest (answering_once _) [] 2

end SecureFileSystem.RequestLog
