import SecureFileSystem.Base
import SecureFileSystem.UrlForm

/-!
`middleware.py`: what the access log keeps of a query string. A signature in it
would let a reader of the log download the file.
-/

namespace SecureFileSystem.AccessLog

open Base UrlForm

def redactedQueryParams : List Text := ["sig".toList]

def redacted : Text := "REDACTED".toList

def redactPair (pair : Text × Text) : Text × Text :=
  (pair.1, if redactedQueryParams.contains pair.1 then redacted else pair.2)

def redactQuery (query : Text) : Text := urlencode ((parseQsl query).map redactPair)

/-- `bytes.decode("latin-1")` -/
def latin1 (bytes : Bytes) : Text := bytes.map fun byte => Char.ofNat byte.toNat

/-- The second pair is the first one, with the value of a signature replaced. -/
structure Redacts (given kept : Text × Text) : Prop where
  name : kept.1 = given.1
  signature : given.1 = "sig".toList → kept.2 = "REDACTED".toList
  other : given.1 ≠ "sig".toList → kept.2 = given.2

structure SameButSignature (left right : Text × Text) : Prop where
  name : left.1 = right.1
  value : left.1 ≠ "sig".toList → left.2 = right.2

theorem redacted_name (name : Text) :
    redactedQueryParams.contains name = true ↔ name = "sig".toList := by
  rw [List.contains_iff_mem]
  exact List.mem_singleton

theorem redactPair_redacts (pairs : List (Text × Text)) :
    List.Forall₂ Redacts pairs (pairs.map redactPair) := by
  apply List.forall₂_map_right_iff.mpr
  apply List.forall₂_same.mpr
  intro pair _
  constructor
  · rfl
  · intro signature
    exact if_pos ((redacted_name pair.1).mpr signature)
  · intro other
    exact if_neg fun listed => other ((redacted_name pair.1).mp listed)

theorem redactPair_alike {left right : List (Text × Text)}
    (alike : List.Forall₂ SameButSignature left right) :
    left.map redactPair = right.map redactPair := by
  induction alike with
  | nil => rfl
  | cons same _ ih =>
      rw [List.map_cons, List.map_cons, ih, redactPair, redactPair, ← same.name]
      congr 2
      split
      · rfl
      · rename_i free
        exact same.value fun signature => free ((redacted_name _).mpr signature)

/-- The log reads as the query with every signature replaced and nothing else, and
tells nobody what the signatures were. -/
theorem redactQuery_exact (query : Bytes) :
    List.Forall₂ Redacts (parseQsl (latin1 query)) (parseQsl (redactQuery (latin1 query))) ∧
    ∀ other : Bytes,
      List.Forall₂ SameButSignature (parseQsl (latin1 query)) (parseQsl (latin1 other)) →
        redactQuery (latin1 query) = redactQuery (latin1 other) := by
  constructor
  · rw [redactQuery, parseQsl_urlencode]
    exact redactPair_redacts _
  · intro other alike
    rw [redactQuery, redactQuery, redactPair_alike alike]

def plainQuery : Bytes := [115, 105, 103, 61, 120, 38, 107, 61, 37, 70, 70]

/-- `s%69g=y&k=%80`: the name is encoded, and the other value is ill formed too. -/
def encodedQuery : Bytes := [115, 37, 54, 57, 103, 61, 121, 38, 107, 61, 37, 56, 48]

theorem redactQuery_exact_encoded :
    redactQuery (latin1 plainQuery) = redactQuery (latin1 encodedQuery) := by
  have left : parseQsl (latin1 plainQuery) =
      [(['s', 'i', 'g'], ['x']), (['k'], [replacement])] := by decide +kernel
  have right : parseQsl (latin1 encodedQuery) =
      [(['s', 'i', 'g'], ['y']), (['k'], [replacement])] := by decide +kernel
  apply (redactQuery_exact plainQuery).2 encodedQuery
  rw [left, right]
  apply List.Forall₂.cons
  · constructor
    · rfl
    · intro named
      exact absurd rfl named
  · apply List.Forall₂.cons
    · constructor
      · rfl
      · intro _
        rfl
    · exact List.Forall₂.nil

end SecureFileSystem.AccessLog
