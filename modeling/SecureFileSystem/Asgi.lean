import Mathlib

/-!
An application that talks to a server through two calls: it receives messages
and sends messages. Its tasks may interleave and its handlers may catch what a
call raises, so an application is any function from what it has seen and done
to its next call.
-/

namespace SecureFileSystem.Asgi

variable {Message Error Server Other : Type}

inductive Event (Message Error : Type) where
  | received (message : Message)
  /-- `receive` raised -/
  | raised (error : Error)
  | sent (message : Message)
  deriving DecidableEq

inductive Act (Message Error : Type) where
  | receive
  | send (message : Message)
  /-- the application returns, or raises -/
  | finish (error : Option Error)
  deriving DecidableEq

abbrev Application (Message Error : Type) := List (Event Message Error) → Act Message Error

/-- What the two calls do; `receive` waits where it is `none`. -/
structure Channel (Message Error Server : Type) where
  receive : Server → Option (Except Error Message × Server)
  send : Server → Message → Server

structure Session (Message Error Server : Type) where
  history : List (Event Message Error)
  server : Server

def advance (channel : Channel Message Error Server) (app : Application Message Error)
    (session : Session Message Error Server) : Session Message Error Server :=
  match app session.history with
  | .receive =>
      match channel.receive session.server with
      | none => session
      | some (.ok message, server) => ⟨session.history ++ [.received message], server⟩
      | some (.error error, server) => ⟨session.history ++ [.raised error], server⟩
  | .send message =>
      ⟨session.history ++ [.sent message], channel.send session.server message⟩
  | .finish _ => session

def serve (channel : Channel Message Error Server) (app : Application Message Error)
    (server : Server) : Nat → Session Message Error Server
  | 0 => ⟨[], server⟩
  | count + 1 => advance channel app (serve channel app server count)

def receivedOf : Event Message Error → Option Message
  | .received message => some message
  | _ => none

def sentOf : Event Message Error → Option Message
  | .sent message => some message
  | _ => none

def seen (history : List (Event Message Error)) : List Message := history.filterMap receivedOf

def sends (history : List (Event Message Error)) : List Message := history.filterMap sentOf

@[simp] theorem seen_received (history : List (Event Message Error)) (message : Message) :
    seen (history ++ [.received message]) = seen history ++ [message] := by
  simp [seen, receivedOf]

@[simp] theorem seen_raised (history : List (Event Message Error)) (error : Error) :
    seen (history ++ [.raised error]) = seen history := by
  simp [seen, receivedOf]

@[simp] theorem seen_sent (history : List (Event Message Error)) (message : Message) :
    seen (history ++ [.sent message]) = seen history := by
  simp [seen, receivedOf]

@[simp] theorem sends_received (history : List (Event Message Error)) (message : Message) :
    sends (history ++ [.received message]) = sends history := by
  simp [sends, sentOf]

@[simp] theorem sends_raised (history : List (Event Message Error)) (error : Error) :
    sends (history ++ [.raised error]) = sends history := by
  simp [sends, sentOf]

@[simp] theorem sends_sent (history : List (Event Message Error)) (message : Message) :
    sends (history ++ [.sent message]) = sends history ++ [message] := by
  simp [sends, sentOf]

/-- What a call may do to the history and the server, one case a call. -/
structure Keeps (channel : Channel Message Error Server) (app : Application Message Error)
    (holds : List (Event Message Error) → Server → Prop) : Prop where
  receive : ∀ history server message after, holds history server →
    app history = .receive → channel.receive server = some (.ok message, after) →
      holds (history ++ [.received message]) after
  refuse : ∀ history server error after, holds history server →
    app history = .receive → channel.receive server = some (.error error, after) →
      holds (history ++ [.raised error]) after
  send : ∀ history server message, holds history server → app history = .send message →
    holds (history ++ [.sent message]) (channel.send server message)

theorem advance_keeps {channel : Channel Message Error Server} {app : Application Message Error}
    {holds : List (Event Message Error) → Server → Prop} (keeps : Keeps channel app holds)
    (session : Session Message Error Server) (held : holds session.history session.server) :
    holds (advance channel app session).history (advance channel app session).server := by
  unfold advance
  cases act : app session.history with
  | receive =>
      cases answer : channel.receive session.server with
      | none => exact held
      | some got =>
          obtain ⟨outcome, after⟩ := got
          cases outcome with
          | ok message => exact keeps.receive _ _ _ _ held act answer
          | error error => exact keeps.refuse _ _ _ _ held act answer
  | send message => exact keeps.send _ _ _ held act
  | finish error => exact held

theorem serve_keeps {channel : Channel Message Error Server} {app : Application Message Error}
    {holds : List (Event Message Error) → Server → Prop} (keeps : Keeps channel app holds)
    (server : Server) (initially : holds [] server) (count : Nat) :
    holds (serve channel app server count).history (serve channel app server count).server := by
  induction count with
  | zero => exact initially
  | succ count ih => exact advance_keeps keeps _ ih

/-- Histories of the application in some surroundings whose `receive` raises
only what `may` allows. -/
inductive Played (may : Error → Prop) (app : Application Message Error) :
    List (Event Message Error) → Prop
  | nil : Played may app []
  | received {history : List (Event Message Error)} {message : Message} :
      Played may app history → app history = .receive →
        Played may app (history ++ [.received message])
  | raised {history : List (Event Message Error)} {error : Error} :
      Played may app history → app history = .receive → may error →
        Played may app (history ++ [.raised error])
  | sent {history : List (Event Message Error)} {message : Message} :
      Played may app history → app history = .send message →
        Played may app (history ++ [.sent message])

theorem played_serve (may : Error → Prop) (channel : Channel Message Error Server)
    (app : Application Message Error)
    (raises : ∀ server error after, channel.receive server = some (.error error, after) → may error)
    (server : Server) (count : Nat) : Played may app (serve channel app server count).history := by
  have keeps : Keeps channel app fun history _ => Played may app history := by
    constructor
    · intro history server message after played act _
      exact .received played act
    · intro history server error after played act answer
      exact .raised played act (raises _ _ _ answer)
    · intro history server message played act
      exact .sent played act
  exact serve_keeps keeps server .nil count

/-- Two channels that give related servers the same answers and keep them related. -/
structure Agree (channel : Channel Message Error Server) (other : Channel Message Error Other)
    (related : Server → Other → Prop) : Prop where
  wait : ∀ server twin, related server twin → channel.receive server = none →
    other.receive twin = none
  receive : ∀ server twin outcome after, related server twin →
    channel.receive server = some (outcome, after) →
      ∃ follows, other.receive twin = some (outcome, follows) ∧ related after follows
  send : ∀ server twin message, related server twin →
    related (channel.send server message) (other.send twin message)

theorem advance_agree {channel : Channel Message Error Server}
    {other : Channel Message Error Other} {related : Server → Other → Prop}
    (agree : Agree channel other related) (app : Application Message Error)
    (session : Session Message Error Server) (twin : Session Message Error Other)
    (same : session.history = twin.history) (held : related session.server twin.server) :
    (advance channel app session).history = (advance other app twin).history ∧
      related (advance channel app session).server (advance other app twin).server := by
  unfold advance
  rw [← same]
  cases act : app session.history with
  | receive =>
      cases answer : channel.receive session.server with
      | none =>
          rw [agree.wait _ _ held answer]
          exact ⟨same, held⟩
      | some got =>
          obtain ⟨outcome, after⟩ := got
          obtain ⟨follows, twinAnswer, kept⟩ := agree.receive _ _ _ _ held answer
          rw [twinAnswer]
          cases outcome with
          | ok message => exact ⟨rfl, kept⟩
          | error error => exact ⟨rfl, kept⟩
  | send message => exact ⟨rfl, agree.send _ _ _ held⟩
  | finish error => exact ⟨same, held⟩

/-- An application cannot tell the two channels apart. -/
theorem serve_agree {channel : Channel Message Error Server}
    {other : Channel Message Error Other} {related : Server → Other → Prop}
    (agree : Agree channel other related) (app : Application Message Error)
    (server : Server) (twin : Other) (held : related server twin) (count : Nat) :
    (serve channel app server count).history = (serve other app twin count).history ∧
      related (serve channel app server count).server (serve other app twin count).server := by
  induction count with
  | zero => exact ⟨rfl, held⟩
  | succ count ih => exact advance_agree agree app _ _ ih.1 ih.2

end SecureFileSystem.Asgi
