import SecureFileSystem.Base

/-!
`services/erasure.py`: a file is zero-padded to a multiple of `k` bytes, split
into `k` primary blocks and extended by `m` parity blocks; any `k` of the
blocks give the file back.
-/

namespace SecureFileSystem.Erasure

open Base

inductive ErasureError where
  | valueError
  | notEnoughShards
  deriving DecidableEq

/-- Python `dict` from shard index to block; keys stay distinct. -/
abbrev Blocks := List (Nat × Bytes)

def Blocks.set (blocks : Blocks) (index : Nat) (block : Bytes) : Blocks :=
  blocks.filter (·.1 ≠ index) ++ [(index, block)]

/-- `-(-len(data) // k)` -/
def blockSize (length k : Nat) : Nat := (length + k - 1) / k

/-- `data.ljust(block_size * k, b"\0")` -/
def padded (data : Bytes) (k : Nat) : Bytes :=
  data ++ List.replicate (blockSize data.length k * k - data.length) 0

def primaryBlocks (data : Bytes) (k : Nat) : List Bytes :=
  let size := blockSize data.length k
  (List.range k).map fun index => ((padded data k).drop (index * size)).take size

def encode (zfec : Zfec) (data : Bytes) (k m : Nat) : Except ErasureError (List Bytes) :=
  if data = [] then .error .valueError
  else .ok (zfec.encode k (k + m) (primaryBlocks data k) (List.range (k + m)))

def decodePrimary (zfec : Zfec) (blocks : Blocks) (k m : Nat) :
    Except ErasureError (List Bytes) :=
  if blocks.length < k then .error .notEnoughShards
  else
    let indices := ((blocks.map (·.1)).insertionSort (· ≤ ·)).take k
    if ∃ index ∈ indices, k + m ≤ index then .error .valueError
    else .ok (zfec.decode k (k + m) (indices.map fun index => (blocks.lookup index).getD []) indices)

def decode (zfec : Zfec) (blocks : Blocks) (k m size : Nat) : Except ErasureError Bytes :=
  (decodePrimary zfec blocks k m).map fun primary => primary.flatten.take size

def regenerate (zfec : Zfec) (blocks : Blocks) (k m : Nat) (indices : List Nat) :
    Except ErasureError (List Bytes) :=
  (decodePrimary zfec blocks k m).map fun primary => zfec.encode k (k + m) primary indices

theorem blockSize_covers (length k : Nat) (positive : 1 ≤ k) :
    length ≤ blockSize length k * k := by
  have split := Nat.div_add_mod (length + k - 1) k
  have small := Nat.mod_lt (length + k - 1) positive
  rw [blockSize, Nat.mul_comm]
  omega

theorem blockSize_positive (length k : Nat) (positive : 1 ≤ k) (nonempty : 0 < length) :
    0 < blockSize length k :=
  Nat.div_pos (by omega) positive

theorem padded_length (data : Bytes) (k : Nat) (positive : 1 ≤ k) :
    (padded data k).length = blockSize data.length k * k := by
  have covers := blockSize_covers data.length k positive
  simp [padded]
  omega

theorem primaryBlocks_uniform (data : Bytes) (k : Nat) (positive : 1 ≤ k) :
    Uniform k (blockSize data.length k) (primaryBlocks data k) := by
  refine ⟨by simp [primaryBlocks], ?_⟩
  intro block member
  obtain ⟨index, inside, rfl⟩ := List.mem_map.mp member
  have bound : index + 1 ≤ k := List.mem_range.mp inside
  have room := Nat.mul_le_mul_right (blockSize data.length k) bound
  have length := padded_length data k positive
  rw [Nat.mul_comm] at length
  change ((padded data k).drop (index * blockSize data.length k) |>.take _).length = _
  rw [List.length_take, List.length_drop, length, Nat.mul_comm k]
  rw [Nat.add_mul] at room
  rw [Nat.mul_comm (blockSize data.length k) k]
  omega

/-- Cutting a list into `count` pieces of `size` and joining them again. -/
theorem flatten_pieces {Item : Type} (items : List Item) (size count : Nat)
    (length : items.length = size * count) :
    ((List.range count).map fun index => (items.drop (index * size)).take size).flatten = items := by
  induction count generalizing items with
  | zero => simpa using length
  | succ count ih =>
      have tail := ih (items.drop size) (by simp [length, Nat.mul_succ])
      rw [List.range_succ_eq_map]
      simp only [List.map_cons, List.map_map, List.flatten_cons, Nat.zero_mul, List.drop_zero]
      have shifted : ((List.range count).map fun index =>
          ((items.drop size).drop (index * size)).take size) =
          (List.range count).map
            ((fun index => (items.drop (index * size)).take size) ∘ Nat.succ) := by
        apply List.map_congr_left
        intro index _
        simp [List.drop_drop, Nat.succ_mul, Nat.add_comm]
      rw [← shifted, tail, List.take_append_drop]

theorem primaryBlocks_join (data : Bytes) (k : Nat) (positive : 1 ≤ k) :
    (primaryBlocks data k).flatten.take data.length = data := by
  have whole : (primaryBlocks data k).flatten = padded data k :=
    flatten_pieces (padded data k) (blockSize data.length k) k (padded_length data k positive)
  rw [whole]
  simp [padded]

/-- The block a file has at an index, data or parity. -/
def codeBlock (zfec : Zfec) (data : Bytes) (k m index : Nat) : Bytes :=
  zfec.block k (k + m) (primaryBlocks data k) index

theorem encode_eq (zfec : Zfec) (data : Bytes) (k m : Nat) (nonempty : data ≠ []) :
    encode zfec data k m = .ok ((List.range (k + m)).map (codeBlock zfec data k m)) := by
  simp [encode, nonempty, Zfec.encode, codeBlock]

def Genuine (zfec : Zfec) (data : Bytes) (k m : Nat) (blocks : Blocks) : Prop :=
  (blocks.map (·.1)).Nodup ∧
    ∀ entry ∈ blocks, entry.1 < k + m ∧ entry.2 = codeBlock zfec data k m entry.1

theorem lookup_genuine {zfec : Zfec} {data : Bytes} {k m : Nat} {blocks : Blocks}
    (genuine : Genuine zfec data k m blocks) {index : Nat} (present : index ∈ blocks.map (·.1)) :
    (blocks.lookup index).getD [] = codeBlock zfec data k m index := by
  obtain ⟨entry, member, rfl⟩ := List.mem_map.mp present
  cases found : blocks.lookup entry.1 with
  | none =>
      have absent := List.lookup_eq_none_iff.mp found entry member
      simp at absent
  | some block =>
      obtain ⟨before, after, split, -⟩ := List.lookup_eq_some_iff.mp found
      have here : (entry.1, block) ∈ blocks := by simp [split]
      simpa using (genuine.2 _ here).2

/-- Any `k` genuine blocks give back the primary blocks. -/
theorem decodePrimary_genuine {zfec : Zfec} {data : Bytes} {k m : Nat} {blocks : Blocks}
    (mds : Mds zfec k (k + m)) (positive : 1 ≤ k) (genuine : Genuine zfec data k m blocks)
    (enough : k ≤ blocks.length) :
    decodePrimary zfec blocks k m = .ok (primaryBlocks data k) := by
  let sorted := (blocks.map (·.1)).insertionSort (· ≤ ·)
  have order : sorted.Perm (blocks.map (·.1)) := List.perm_insertionSort _ _
  have kept : ∀ index ∈ sorted.take k, index ∈ blocks.map (·.1) :=
    fun index member => order.mem_iff.mp (List.mem_of_mem_take member)
  have inside : ∀ index ∈ sorted.take k, index < k + m := by
    intro index member
    obtain ⟨entry, present, rfl⟩ := List.mem_map.mp (kept index member)
    exact (genuine.2 entry present).1
  have distinct : (sorted.take k).Nodup :=
    (order.nodup_iff.mpr genuine.1).sublist (List.take_sublist _ _)
  have count : (sorted.take k).length = k := by
    rw [List.length_take, order.length_eq, List.length_map]
    omega
  have values : ((sorted.take k).map fun index => (blocks.lookup index).getD []) =
      zfec.encode k (k + m) (primaryBlocks data k) (sorted.take k) := by
    apply List.map_congr_left
    intro index member
    exact lookup_genuine genuine (kept index member)
  have unbroken : ¬ ∃ index ∈ sorted.take k, k + m ≤ index := by
    rintro ⟨index, member, outside⟩
    exact Nat.not_le_of_lt (inside index member) outside
  have decoded := mds.decode _ _ (primaryBlocks_uniform data k positive) (sorted.take k) count
    distinct inside
  rw [← values] at decoded
  simp only [decodePrimary, Nat.not_lt_of_le enough, if_false]
  rw [if_neg unbroken, decoded]

theorem decode_genuine {zfec : Zfec} {data : Bytes} {k m : Nat} {blocks : Blocks}
    (mds : Mds zfec k (k + m)) (positive : 1 ≤ k) (genuine : Genuine zfec data k m blocks)
    (enough : k ≤ blocks.length) :
    decode zfec blocks k m data.length = .ok data := by
  rw [decode, decodePrimary_genuine mds positive genuine enough]
  simp [Except.map, primaryBlocks_join data k positive]

/-- Any `k` genuine blocks give back every block asked for, in the order asked for. -/
theorem regenerate_genuine {zfec : Zfec} {data : Bytes} {k m : Nat} {blocks : Blocks}
    (mds : Mds zfec k (k + m)) (positive : 1 ≤ k) (genuine : Genuine zfec data k m blocks)
    (enough : k ≤ blocks.length) (indices : List Nat) :
    regenerate zfec blocks k m indices = .ok (indices.map (codeBlock zfec data k m)) := by
  rw [regenerate, decodePrimary_genuine mds positive genuine enough]
  rfl

theorem codeBlock_length {zfec : Zfec} {data : Bytes} {k m index : Nat}
    (mds : Mds zfec k (k + m)) (positive : 1 ≤ k) (inside : index < k + m) :
    (codeBlock zfec data k m index).length = blockSize data.length k :=
  mds.size _ _ (primaryBlocks_uniform data k positive) index inside

theorem decode_short {zfec : Zfec} {blocks : Blocks} {k m size : Nat} (few : blocks.length < k) :
    decode zfec blocks k m size = .error .notEnoughShards := by
  simp [decode, decodePrimary, few, Except.map]

theorem genuine_survivors {zfec : Zfec} {data : Bytes} {k m : Nat} {survivors : Blocks}
    (distinct : (survivors.map (·.1)).Nodup)
    (surviving : ∀ entry ∈ survivors,
      ((List.range (k + m)).map (codeBlock zfec data k m))[entry.1]? = some entry.2) :
    Genuine zfec data k m survivors := by
  refine ⟨distinct, fun entry member => ?_⟩
  obtain ⟨inside, block⟩ := List.getElem?_eq_some_iff.mp (surviving entry member)
  simp only [List.length_map, List.length_range] at inside
  refine ⟨inside, ?_⟩
  rw [← block, List.getElem_map, List.getElem_range]

/-- A data file comes back from any `k` of its blocks, whichever survive. -/
theorem round_trip (zfec : Zfec) (data : Bytes) (k m : Nat) (nonempty : data ≠ [])
    (positive : 1 ≤ k) (mds : Mds zfec k (k + m)) :
    ∃ blocks, encode zfec data k m = .ok blocks ∧ blocks.length = k + m ∧
      (∃ size, 0 < size ∧ ∀ block ∈ blocks, block.length = size) ∧
      (∀ survivors : Blocks, (survivors.map (·.1)).Nodup →
        (∀ entry ∈ survivors, blocks[entry.1]? = some entry.2) → k ≤ survivors.length →
          decode zfec survivors k m data.length = .ok data) ∧
      ∀ survivors : Blocks, survivors.length < k →
        decode zfec survivors k m data.length = .error .notEnoughShards := by
  refine ⟨_, encode_eq zfec data k m nonempty, by simp, ?size, ?enough, fun _ => decode_short⟩
  case size =>
    have some : 0 < data.length := List.length_pos_iff.mpr nonempty
    refine ⟨blockSize data.length k, blockSize_positive _ k positive some, fun block member => ?_⟩
    obtain ⟨index, inside, rfl⟩ := List.mem_map.mp member
    exact codeBlock_length mds positive (List.mem_range.mp inside)
  case enough =>
    intro survivors distinct surviving enough
    exact decode_genuine mds positive (genuine_survivors distinct surviving) enough

/-! ### One parity block -/

def xorBytes (left right : Bytes) : Bytes := List.zipWith (· ^^^ ·) left right

/-- Two primary blocks and their sum. On the bytes 3 and 2, the only ones a result
computes with, `zfec` has the same parity. -/
def parity : Zfec where
  block _ _ primary index :=
    if index < primary.length then primary.getD index []
    else xorBytes (primary.getD 0 []) (primary.getD 1 [])
  decode _ _ blocks indices :=
    let held := fun index => (indices.zip blocks).lookup index
    let missing := fun other => xorBytes ((held 2).getD []) ((held other).getD [])
    [(held 0).getD (missing 1), (held 1).getD (missing 0)]

theorem xorBytes_cancel (left right : Bytes) (same : left.length = right.length) :
    xorBytes (xorBytes left right) right = left := by
  induction left generalizing right with
  | nil => rfl
  | cons byte left ih =>
      cases right with
      | nil => cases same
      | cons other right =>
          have rest := ih right (Nat.succ.inj same)
          change (byte ^^^ other ^^^ other) :: xorBytes (xorBytes left right) right = byte :: left
          rw [rest, UInt8.xor_assoc, UInt8.xor_self, UInt8.xor_zero]

theorem xorBytes_comm (left right : Bytes) : xorBytes left right = xorBytes right left :=
  List.zipWith_comm_of_comm UInt8.xor_comm

theorem xorBytes_length {left right : Bytes} (same : left.length = right.length) :
    (xorBytes left right).length = left.length := by
  simp [xorBytes, same]

theorem parity_mds : Mds parity 2 3 := by
  have pair : ∀ size primary, Uniform 2 size primary → ∃ left right, primary = [left, right] ∧
      left.length = size ∧ right.length = size := by
    intro size primary uniform
    obtain ⟨left, right, rfl⟩ := List.length_eq_two.mp uniform.count
    exact ⟨left, right, rfl, uniform.size left (by simp), uniform.size right (by simp)⟩
  constructor
  case systematic =>
    intro size primary _ index inside
    simp [parity, inside]
  case size =>
    intro size primary uniform index bound
    obtain ⟨left, right, rfl, first, second⟩ := pair size primary uniform
    have added := xorBytes_length (first.trans second.symm)
    interval_cases index
    · exact first
    · exact second
    · exact added.trans first
  case decode =>
    intro size primary uniform indices count distinct bound
    obtain ⟨left, right, rfl, first, second⟩ := pair size primary uniform
    obtain ⟨one, other, rfl⟩ := List.length_eq_two.mp count
    have same := first.trans second.symm
    have one_bound := bound one (by simp)
    have other_bound := bound other (by simp)
    have apart : one ≠ other := by simpa using distinct
    -- what is missing is the sum of the two that are held
    have gone_left : xorBytes (xorBytes left right) right = left := xorBytes_cancel left right same
    have gone_right : xorBytes (xorBytes left right) left = right := by
      rw [xorBytes_comm left right]
      exact xorBytes_cancel right left same.symm
    interval_cases one <;> interval_cases other <;>
      first
      | exact absurd rfl apart
      | simp [parity, Zfec.encode, List.lookup, gone_left, gone_right]

/-- Three bytes in two blocks and their parity; the first block is lost. -/
theorem round_trip_parity : ∃ blocks, encode parity [3, 0, 2] 2 1 = .ok blocks ∧
    decode parity [(2, [1, 0]), (1, [2, 0])] 2 1 3 = .ok [3, 0, 2] ∧
    decode parity [(2, [1, 0])] 2 1 3 = .error .notEnoughShards := by
  obtain ⟨blocks, encoded, -, -, enough, short⟩ :=
    round_trip parity [3, 0, 2] 2 1 (by decide) (by decide) parity_mds
  have genuine : blocks = [[3, 0], [2, 0], [1, 0]] := by
    obtain rfl := Except.ok.inj encoded
    decide
  subst genuine
  exact ⟨_, encoded, enough [(2, [1, 0]), (1, [2, 0])] (by decide) (by decide) (by decide),
    short [(2, [1, 0])] (by decide)⟩

end SecureFileSystem.Erasure
