import Mathlib

/-!
Base types, and the code outside the repository as one parameter: SHA-256,
HMAC-SHA256, the zfec codec and Python's Unicode tables. Nothing is assumed of
these functions here; a result that needs a property of one of them takes it
as a hypothesis.
-/

namespace SecureFileSystem.Base

abbrev Bytes := List UInt8

/-- Python `str`: its code points, lone surrogates excluded. -/
abbrev Text := List Char

abbrev Uuid := BitVec 128

instance (id : Uuid) (ids : List Uuid) : Decidable (id ∈ ids) := inferInstance

/-- `zfec.Encoder(k, n)` computes each requested output block from the `k`
primary blocks; `zfec.Decoder(k, n)` recovers these from `k` numbered blocks. -/
structure Zfec where
  block : Nat → Nat → List Bytes → Nat → Bytes
  decode : Nat → Nat → List Bytes → List Nat → List Bytes

def Zfec.encode (zfec : Zfec) (k n : Nat) (primary : List Bytes) (indices : List Nat) :
    List Bytes :=
  indices.map (zfec.block k n primary)

/-- What `str` methods and `int` look up in the Unicode database. -/
structure Unicode where
  isSpace : Char → Bool
  decimal : Char → Option Nat
  lower : Text → Text

structure Platform where
  sha256Hex : Bytes → Text
  hmacSha256 : Bytes → Bytes → Bytes
  zfec : Zfec
  unicode : Unicode

structure Uniform (k size : Nat) (primary : List Bytes) : Prop where
  count : primary.length = k
  size : ∀ block ∈ primary, block.length = size

/-- A systematic MDS code: the first `k` outputs are the inputs, every output
has their length, and any `k` numbered outputs determine the inputs. -/
structure Mds (zfec : Zfec) (k n : Nat) : Prop where
  systematic : ∀ size primary, Uniform k size primary → ∀ index (inside : index < primary.length),
    zfec.block k n primary index = primary[index]
  size : ∀ size primary, Uniform k size primary → ∀ index, index < n →
    (zfec.block k n primary index).length = size
  decode : ∀ size primary, Uniform k size primary → ∀ indices : List Nat, indices.length = k →
    indices.Nodup → (∀ index ∈ indices, index < n) →
      zfec.decode k n (zfec.encode k n primary indices) indices = primary

/-- With one primary block every output is a copy of it. -/
def replication : Zfec where
  block _ _ primary _ := primary.headD []
  decode _ _ blocks _ := blocks.take 1

theorem replication_mds (n : Nat) : Mds replication 1 n := by
  have single : ∀ size primary, Uniform 1 size primary → ∃ block, primary = [block] ∧
      block.length = size := by
    intro size primary uniform
    obtain ⟨block, rfl⟩ := List.length_eq_one_iff.mp uniform.count
    exact ⟨block, rfl, uniform.size block (by simp)⟩
  refine ⟨?_, ?_, ?_⟩
  · intro size primary uniform index inside
    obtain ⟨block, rfl, -⟩ := single size primary uniform
    have first : index = 0 := by simpa using inside
    subst first
    rfl
  · intro size primary uniform index _
    obtain ⟨block, rfl, length⟩ := single size primary uniform
    exact length
  · intro size primary uniform indices count _ _
    obtain ⟨block, rfl, -⟩ := single size primary uniform
    obtain ⟨index, rfl⟩ := List.length_eq_one_iff.mp count
    rfl

def smallDigest : Text :=
  "ca358758f6d27e6cf45272937977a748fd88391db679ceda7dc7bf1f005ee879".toList

/-- A link payload, for the file with id 1, until second 50, in version 1. -/
def smallPayload : Bytes :=
  [115, 102, 115, 45, 100, 111, 119, 110, 108, 111, 97, 100, 45, 118, 49, 10, 97, 10, 48, 48,
    48, 48, 48, 48, 48, 48, 45, 48, 48, 48, 48, 45, 48, 48, 48, 48, 45, 48, 48, 48, 48, 45, 48,
    48, 48, 48, 48, 48, 48, 48, 48, 48, 48, 49, 10, 53, 48, 10, 49]

/-- Its HMAC-SHA256 tag under a key of 32 letters k. -/
def smallTag : Bytes :=
  [16, 199, 231, 197, 49, 33, 215, 244, 39, 136, 202, 212, 229, 130, 104, 243, 137, 31, 79,
    139, 206, 167, 133, 134, 143, 175, 55, 58, 251, 138, 82, 140]

/-- A platform small enough to compute with: the digest of one byte string and
the tag of one message, with made-up distinct ones for all others. -/
def plain : Platform where
  sha256Hex data :=
    if data = [7] then smallDigest else '!' :: data.map fun byte => Char.ofNat byte.toNat
  hmacSha256 key message :=
    if message = smallPayload ∧ key = List.replicate 32 107 then smallTag else 0 :: message
  zfec := replication
  unicode := {
    isSpace := fun character => character ∈ [' ', '\t', '\n', '\x0b', '\x0c', '\r']
    decimal := fun _ => none
    lower := fun text => text.map Char.toLower }

theorem toNat_ofNat (value : Nat) (small : value < 0xd800) : (Char.ofNat value).toNat = value := by
  have valid : value.isValidChar := Or.inl small
  rw [Char.ofNat, dif_pos valid]
  rfl

theorem plain_sha256Hex : Function.Injective plain.sha256Hex := by
  have bytes : Function.Injective fun data : Bytes =>
      data.map fun byte => Char.ofNat byte.toNat := by
    refine List.map_injective_iff.mpr fun left right same => ?_
    have values := congrArg Char.toNat same
    have small : ∀ byte : UInt8, byte.toNat < 0xd800 := by
      intro byte
      have bound := byte.toNat_lt
      omega
    rw [toNat_ofNat _ (small left), toNat_ofNat _ (small right)] at values
    exact UInt8.toNat_inj.mp values
  have apart : ∀ text, smallDigest ≠ '!' :: text := by
    intro text same
    have first : smallDigest.head? = some '!' := by rw [same]; rfl
    exact absurd first (by decide)
  intro left right same
  simp only [plain] at same
  split at same <;> split at same
  · simp_all
  · exact absurd same (apart _)
  · exact absurd same.symm (apart _)
  · exact bytes (List.cons.inj same).2

theorem plain_hmacSha256 (key other message text : Bytes)
    (same : plain.hmacSha256 key message = plain.hmacSha256 other text) : message = text := by
  have apart : ∀ rest, smallTag ≠ 0 :: rest := by
    intro rest same
    have first : smallTag.head? = some 0 := by rw [same]; rfl
    exact absurd first (by decide)
  simp only [plain] at same
  split at same <;> split at same
  · simp_all
  · exact absurd same (apart _)
  · exact absurd same.symm (apart _)
  · exact (List.cons.inj same).2

end SecureFileSystem.Base
