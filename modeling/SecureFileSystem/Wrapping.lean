import SecureFileSystem.Asgi

/-!
Middleware as an application around an application. It is given what the server
was asked and answered so far, works out from it what the inner application has
seen and done, and lets that one make the next call; once the inner application
has ended it may send messages of its own.
-/

namespace SecureFileSystem.Wrapping

open Asgi

variable {Message Error State Server : Type}

structure Middleware (Message Error State : Type) where
  receive : State → Message → Except Error Message × State
  send : State → Message → State
  /-- what it sends once the application has ended, and how it ends itself -/
  close : State → Option Error → List Message × Option Error

/-- The inner history, the middleware's own variables, and how many of its
closing messages it has sent. -/
structure Progress (Message Error State : Type) where
  history : List (Event Message Error)
  state : State
  closing : Nat

def deliver (outcome : Except Error Message × State) (progress : Progress Message Error State) :
    Progress Message Error State :=
  match outcome with
  | (.ok message, state) => { progress with
      history := progress.history ++ [.received message]
      state := state }
  | (.error error, state) => { progress with
      history := progress.history ++ [.raised error]
      state := state }

def replayOne (middleware : Middleware Message Error State) (app : Application Message Error)
    (progress : Progress Message Error State) : Event Message Error → Progress Message Error State
  | .received message => deliver (middleware.receive progress.state message) progress
  | .raised error => { progress with history := progress.history ++ [.raised error] }
  | .sent message =>
      match app progress.history with
      | .send _ => { progress with
          history := progress.history ++ [.sent message]
          state := middleware.send progress.state message }
      | _ => { progress with closing := progress.closing + 1 }

def replay (middleware : Middleware Message Error State) (app : Application Message Error)
    (start : State) (history : List (Event Message Error)) : Progress Message Error State :=
  history.foldl (replayOne middleware app) ⟨[], start, 0⟩

def nextCall (middleware : Middleware Message Error State) (app : Application Message Error)
    (progress : Progress Message Error State) : Act Message Error :=
  match app progress.history with
  | .receive => .receive
  | .send message => .send message
  | .finish error =>
      match (middleware.close progress.state error).1[progress.closing]? with
      | some message => .send message
      | none => .finish (middleware.close progress.state error).2

def wrap (middleware : Middleware Message Error State) (start : State)
    (app : Application Message Error) : Application Message Error :=
  fun history => nextCall middleware app (replay middleware app start history)

def inside (middleware : Middleware Message Error State) (channel : Channel Message Error Server) :
    Channel Message Error (Server × State) where
  receive := fun (server, state) =>
    match channel.receive server with
    | none => none
    | some (.ok message, after) =>
        some ((middleware.receive state message).1, after, (middleware.receive state message).2)
    | some (.error error, after) => some (.error error, after, state)
  send := fun (server, state) message => (channel.send server message, middleware.send state message)

@[simp] theorem replay_nil (middleware : Middleware Message Error State)
    (app : Application Message Error) (start : State) :
    replay middleware app start [] = ⟨[], start, 0⟩ := rfl

@[simp] theorem replay_snoc (middleware : Middleware Message Error State)
    (app : Application Message Error) (start : State) (history : List (Event Message Error))
    (event : Event Message Error) :
    replay middleware app start (history ++ [event]) =
      replayOne middleware app (replay middleware app start history) event := by
  simp [replay]

theorem prefix_next {Item : Type} {sent whole : List Item} {item : Item} (begun : sent <+: whole)
    (next : whole[sent.length]? = some item) : sent ++ [item] <+: whole := by
  obtain ⟨inside, rfl⟩ := List.getElem?_eq_some_iff.mp next
  exact List.concat_get_prefix begun inside

/-- How the wrapped application's session and the inner one's belong together. -/
structure Around (middleware : Middleware Message Error State) (start : State)
    (channel : Channel Message Error Server) (app : Application Message Error)
    (closing : List Message) (outer : Session Message Error Server)
    (inner : Session Message Error (Server × State)) : Prop where
  replayed : replay middleware app start outer.history =
    ⟨inner.history, inner.server.2, closing.length⟩
  server : outer.server = closing.foldl channel.send inner.server.1
  closed : closing ≠ [] → ∃ error, app inner.history = .finish error ∧
    closing <+: (middleware.close inner.server.2 error).1

section Around
variable {middleware : Middleware Message Error State} {start : State}
  {channel : Channel Message Error Server} {app : Application Message Error}
  {closing : List Message} {outer : Session Message Error Server}
  {inner : Session Message Error (Server × State)}

theorem around_quiet (around : Around middleware start channel app closing outer inner)
    (unfinished : ∀ error, app inner.history ≠ .finish error) : closing = [] := by
  by_contra sent
  obtain ⟨error, ended, _⟩ := around.closed sent
  exact unfinished error ended

theorem around_begun (around : Around middleware start channel app closing outer inner)
    {error : Option Error} (ended : app inner.history = .finish error) :
    closing <+: (middleware.close inner.server.2 error).1 := by
  by_cases none_sent : closing = []
  · rw [none_sent]
    exact List.nil_prefix
  · obtain ⟨other, same, sent⟩ := around.closed none_sent
    rw [ended] at same
    cases same
    exact sent

theorem around_call (around : Around middleware start channel app closing outer inner) :
    wrap middleware start app outer.history =
      nextCall middleware app ⟨inner.history, inner.server.2, closing.length⟩ := by
  rw [← around.replayed]
  rfl

theorem around_ended (around : Around middleware start channel app closing outer inner)
    {ending : Option Error} (ended : wrap middleware start app outer.history = .finish ending) :
    ∃ error, app inner.history = .finish error ∧
      closing = (middleware.close inner.server.2 error).1 ∧
        ending = (middleware.close inner.server.2 error).2 := by
  rw [around_call around, nextCall] at ended
  cases act : app inner.history with
  | receive => simp [act] at ended
  | send message => simp [act] at ended
  | finish error =>
      simp only [act] at ended
      split at ended
      · cases ended
      · rename_i all_sent
        cases ended
        have sent := around_begun around act
        exact ⟨error, rfl, sent.eq_of_length_le (List.getElem?_eq_none_iff.mp all_sent), rfl⟩

theorem around_advance (around : Around middleware start channel app closing outer inner) :
    ∃ more, Around middleware start channel app more
      (advance channel (wrap middleware start app) outer)
      (advance (inside middleware channel) app inner) := by
  unfold advance
  rw [around_call around]
  cases act : app inner.history with
  | receive =>
      obtain rfl := around_quiet around (by simp [act])
      have same : outer.server = inner.server.1 := around.server
      simp only [nextCall, act, inside, ← same]
      cases answer : channel.receive outer.server with
      | none =>
          exact ⟨[], around⟩
      | some got =>
          obtain ⟨outcome, after⟩ := got
          refine ⟨[], ?_⟩
          cases outcome with
          | error error =>
              constructor
              · simp [around.replayed, replayOne]
              · rfl
              · intro sent
                exact absurd rfl sent
          | ok message =>
              cases verdict : middleware.receive inner.server.2 message with
              | mk given state =>
                  cases given <;>
                  · constructor
                    · simp [around.replayed, replayOne, verdict, deliver]
                    · simp [verdict]
                    · intro sent
                      exact absurd rfl sent
  | send message =>
      obtain rfl := around_quiet around (by simp [act])
      have same : outer.server = inner.server.1 := around.server
      simp only [nextCall, act, inside]
      refine ⟨[], ?_, ?_, ?_⟩
      · simp [around.replayed, replayOne, act]
      · simp [same]
      · intro sent
        exact absurd rfl sent
  | finish error =>
      simp only [nextCall, act]
      cases next : (middleware.close inner.server.2 error).1[closing.length]? with
      | none => exact ⟨closing, around⟩
      | some message =>
          refine ⟨closing ++ [message], ?_, ?_, ?_⟩
          · simp [around.replayed, replayOne, act]
          · simp [around.server]
          · intro _
            exact ⟨error, act, prefix_next (around_begun around act) next⟩

end Around

/-- The wrapped application does what the inner one does on the server it finds,
and then sends the closing messages. -/
theorem serve_around (middleware : Middleware Message Error State) (start : State)
    (channel : Channel Message Error Server) (app : Application Message Error) (server : Server)
    (count : Nat) :
    ∃ closing, Around middleware start channel app closing
      (serve channel (wrap middleware start app) server count)
      (serve (inside middleware channel) app (server, start) count) := by
  induction count with
  | zero => exact ⟨[], rfl, rfl, fun sent => absurd rfl sent⟩
  | succ count ih =>
      obtain ⟨closing, around⟩ := ih
      exact around_advance around

structure Watching (middleware : Middleware Message Error State) : Prop where
  receive : ∀ state message, middleware.receive state message = (.ok message, state)
  close : ∀ state error, middleware.close state error = ([], error)

theorem watching_agrees {middleware : Middleware Message Error State} (watching : Watching middleware)
    (channel : Channel Message Error Server) :
    Agree (inside middleware channel) channel fun pair server => pair.1 = server := by
  constructor
  · rintro ⟨server, state⟩ _ rfl waits
    cases answer : channel.receive server with
    | none => rfl
    | some got =>
        obtain ⟨outcome, after⟩ := got
        cases outcome <;> simp [inside, answer] at waits
  · rintro ⟨server, state⟩ _ outcome ⟨after, later⟩ rfl answered
    simp only [inside, watching.receive] at answered
    cases answer : channel.receive server with
    | none => simp [answer] at answered
    | some got =>
        obtain ⟨given, next⟩ := got
        cases given <;>
        · rw [answer] at answered
          cases answered
          exact ⟨after, rfl, rfl⟩
  · rintro ⟨server, state⟩ _ message rfl
    rfl

theorem watching_call {middleware : Middleware Message Error State} (watching : Watching middleware)
    (app : Application Message Error) (progress : Progress Message Error State) :
    nextCall middleware app progress = app progress.history := by
  unfold nextCall
  split
  · rename_i act
    exact act.symm
  · rename_i act
    exact act.symm
  · rename_i error act
    rw [watching.close, act]
    rfl

def noted (middleware : Middleware Message Error State) (start : State) (messages : List Message) :
    State :=
  messages.foldl middleware.send start

theorem inside_notes {middleware : Middleware Message Error State} (watching : Watching middleware)
    (channel : Channel Message Error Server) (app : Application Message Error) (start : State) :
    Keeps (inside middleware channel) app fun history pair =>
      pair.2 = noted middleware start (sends history) := by
  constructor
  · rintro history ⟨server, state⟩ message ⟨after, later⟩ rfl _ answered
    simp only [inside, watching.receive] at answered
    cases answer : channel.receive server with
    | none => simp [answer] at answered
    | some got =>
        obtain ⟨given, next⟩ := got
        cases given <;> rw [answer] at answered <;> cases answered
        simp
  · rintro history ⟨server, state⟩ error ⟨after, later⟩ rfl _ answered
    simp only [inside, watching.receive] at answered
    cases answer : channel.receive server with
    | none => simp [answer] at answered
    | some got =>
        obtain ⟨given, next⟩ := got
        cases given <;> rw [answer] at answered <;> cases answered
        simp
  · rintro history ⟨server, state⟩ message rfl _
    simp [inside, noted]

/-- Who only looks on is not noticed, and has seen every message sent. -/
theorem watching_serve {middleware : Middleware Message Error State} (watching : Watching middleware)
    (start : State) (channel : Channel Message Error Server) (app : Application Message Error)
    (server : Server) (count : Nat) :
    (serve channel (wrap middleware start app) server count).server =
      (serve channel app server count).server ∧
    replay middleware app start (serve channel (wrap middleware start app) server count).history =
      ⟨(serve channel app server count).history,
        noted middleware start (sends (serve channel app server count).history), 0⟩ := by
  obtain ⟨closing, around⟩ := serve_around middleware start channel app server count
  obtain ⟨sameHistory, sameServer⟩ := serve_agree (watching_agrees watching channel) app
    (server, start) server rfl count
  have notes := serve_keeps (inside_notes watching channel app start) (server, start) rfl count
  have silent : closing = [] := by
    by_contra sent
    obtain ⟨error, _, prefixed⟩ := around.closed sent
    rw [watching.close] at prefixed
    exact sent (List.prefix_nil.mp prefixed)
  subst silent
  constructor
  · rw [← sameServer]
    exact around.server
  · rw [around.replayed, notes, sameHistory]
    rfl

end SecureFileSystem.Wrapping
