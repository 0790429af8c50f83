import SecureFileSystem.Wire
import SecureFileSystem.Execution

/-!
Which reply answers which request in one execution. A reply belongs to the
request whose handle was waited for, wherever in its list it stands.
-/

namespace SecureFileSystem.Exchanges

open Base Fleet Session Execution

/-- A request to a node, and what came back of it once it was waited for. -/
structure Exchange where
  node : Uuid
  request : NodeRequest
  reply : Option Reply
  deriving DecidableEq

def heardOf : List (Answered Res) → List (Nat × Reply)
  | [] => []
  | ⟨.await handles, replies⟩ :: rest => handles.zip replies ++ heardOf rest
  | _ :: rest => heardOf rest

/-- Requests with their handles, each with the first reply to its handle. -/
def paired (heard : List (Nat × Reply)) (requests : List (Uuid × NodeRequest))
    (handles : List Nat) : List Exchange :=
  List.zipWith (fun request handle => ⟨request.1, request.2, heard.lookup handle⟩) requests handles

/-- The requests sent, in order, each with the next reply to its handle. -/
def exchanges : List (Answered Res) → List Exchange
  | [] => []
  | ⟨.send requests, handles⟩ :: rest => paired (heardOf rest) requests handles ++ exchanges rest
  | _ :: rest => exchanges rest

def exchanged (request : Uuid × NodeRequest) (reply : Reply) : Exchange :=
  ⟨request.1, request.2, some reply⟩

theorem lookup_zip {handles : List Nat} {replies : List Reply} (more : List (Nat × Reply))
    (distinct : handles.Nodup) {index handle : Nat} {reply : Reply}
    (named : handles[index]? = some handle) (told : replies[index]? = some reply) :
    (handles.zip replies ++ more).lookup handle = some reply := by
  induction handles generalizing replies index with
  | nil => cases named
  | cons first rest ih =>
      cases replies with
      | nil => cases told
      | cons answer others =>
          rw [List.nodup_cons] at distinct
          cases index with
          | zero =>
              cases named
              cases told
              simp
          | succ index =>
              have later : rest[index]? = some handle := named
              have apart : handle ≠ first := by
                rintro rfl
                exact distinct.1 (List.mem_of_getElem? later)
              simp only [List.zip_cons_cons, List.cons_append, List.lookup_cons,
                beq_false_of_ne apart]
              exact ih distinct.2 later told

/-- All on the wire, then all awaited: each request has its own reply. -/
theorem exchanges_gathered {requests : List (Uuid × NodeRequest)} {handles : List Nat}
    {replies : List Reply} (distinct : handles.Nodup) (numbered : handles.length = requests.length)
    (told : replies.length = requests.length) (rest : List (Answered Res)) :
    exchanges (⟨.send requests, handles⟩ :: ⟨.await handles, replies⟩ :: rest) =
      List.zipWith exchanged requests replies ++ exchanges rest := by
  have each : paired (handles.zip replies ++ heardOf rest) requests handles =
      List.zipWith exchanged requests replies := by
    unfold paired
    apply List.ext_getElem
    · simp [numbered, told]
    · intro index left right
      rw [List.length_zipWith] at left right
      have inHandles : index < handles.length := by omega
      have inReplies : index < replies.length := by omega
      rw [List.getElem_zipWith, List.getElem_zipWith,
        lookup_zip _ distinct (List.getElem?_eq_getElem inHandles)
          (List.getElem?_eq_getElem inReplies)]
      rfl
  exact congrArg (· ++ exchanges rest) each

theorem exchanges_call {thread : Tid} {request : Uuid × NodeRequest} {handles : List Nat}
    {replies : List Reply} {before middle here after : Shared}
    (sent : exec thread before (.send [request]) handles = some middle)
    (heard : exec thread here (.await handles) replies = some after) (rest : List (Answered Res)) :
    exchanges (⟨.send [request], handles⟩ :: ⟨.await handles, replies⟩ :: rest) =
      exchanged request (replies.headD none) :: exchanges rest := by
  obtain ⟨numbered, -⟩ := Option.ite_none_right_eq_some.mp sent
  obtain ⟨flights, told, -⟩ := Option.map_eq_some_iff.mp heard
  have count := (Wire.awaitReplies_heard told).1
  rw [numbered, List.length_range'] at count
  obtain ⟨reply, rfl⟩ := List.length_eq_one_iff.mp count
  rw [exchanges_gathered (by rw [numbered]; exact List.nodup_range') (by rw [numbered]; rfl) rfl]
  rfl

theorem heardOf_append (early late : List (Answered Res)) :
    heardOf (early ++ late) = heardOf early ++ heardOf late := by
  induction early with
  | nil => rfl
  | cons answered rest ih =>
      obtain ⟨request, given⟩ := answered
      cases request with
      | await handles =>
          change handles.zip given ++ heardOf (rest ++ late) = _ ++ heardOf late
          rw [ih, ← List.append_assoc]
          rfl
      | _ => exact ih

theorem paired_append {heard : List (Nat × Reply)} (more : List (Nat × Reply))
    {requests : List (Uuid × NodeRequest)} {handles : List Nat}
    (whole : ∀ exchange ∈ paired heard requests handles, exchange.reply.isSome = true) :
    paired (heard ++ more) requests handles = paired heard requests handles := by
  induction requests generalizing handles with
  | nil => rfl
  | cons request others ih =>
      cases handles with
      | nil => rfl
      | cons handle rest =>
          have now : (heard.lookup handle).isSome = true := whole _ List.mem_cons_self
          have later := ih fun exchange member => whole exchange (List.mem_cons_of_mem _ member)
          have same : (heard ++ more).lookup handle = heard.lookup handle := by
            rw [List.lookup_append, Option.or_of_isSome now]
          simp only [paired, List.zipWith_cons_cons, same] at later ⊢
          rw [later]

/-- What comes later adds nothing to requests that have their replies. -/
theorem exchanges_append {early : List (Answered Res)} (late : List (Answered Res))
    (whole : ∀ exchange ∈ exchanges early, exchange.reply.isSome = true) :
    exchanges (early ++ late) = exchanges early ++ exchanges late := by
  induction early with
  | nil => rfl
  | cons answered rest ih =>
      obtain ⟨request, given⟩ := answered
      cases request with
      | send requests =>
          have later := ih fun exchange member => whole exchange (List.mem_append_right _ member)
          have now := paired_append (heardOf late) fun exchange member =>
            whole exchange (List.mem_append_left _ member)
          change paired (heardOf (rest ++ late)) requests given ++ exchanges (rest ++ late) =
            (paired (heardOf rest) requests given ++ exchanges rest) ++ exchanges late
          rw [heardOf_append, now, later, List.append_assoc]
      | _ => exact ih whole

end SecureFileSystem.Exchanges
