import Krikos.Identity.Types
import Krikos.Lib.HashTree

/-!
# Identity.Merkle

The Merkle tree of the identity protocol: the tree over a list of leaf hashes, inclusion proofs,
and the append-only log. The hash with its domains stays outside; it is a function of a tagged
preimage.

The prover recurses on the list of leaves and the verifier on a claimed index and size. Both walk
one address, the sides of the splits at powers of two, and the facts about hash trees say what a
proof at an address shows.
-/

namespace Krikos.Identity

open Lib List
open Lib.HashTree

def MAX_MERKLE_PROOF_HASHES : Nat := 64
def MAX_MERKLE_SET_LEAVES : Nat := 2048
def MAX_MERKLE_LOG_LEAVES : Nat := 1048576

/-! ## Splitting at a power of two -/

/-- `largest_power_of_two_less_than_u64` and its `usize` twin: the highest bit of `value - 1`. -/
def largestPowerOfTwoLessThan (value : Nat) : Nat := 2 ^ Nat.log2 (value - 1)

lemma largestPowerOfTwoLessThan_pos (n : Nat) : 0 < largestPowerOfTwoLessThan n :=
  Nat.two_pow_pos _

lemma largestPowerOfTwoLessThan_lt {n : Nat} (h : 1 < n) : largestPowerOfTwoLessThan n < n := by
  have hle : 2 ^ Nat.log2 (n - 1) ≤ n - 1 := Nat.log2_self_le (by omega)
  unfold largestPowerOfTwoLessThan
  omega

lemma largestPowerOfTwoLessThan_le {n k : Nat} (hn : 1 < n) (h : n ≤ 2 ^ (k + 1)) :
    largestPowerOfTwoLessThan n ≤ 2 ^ k := by
  have hlog : Nat.log2 (n - 1) < k + 1 := (Nat.log2_lt (by omega)).mpr (by omega)
  exact Nat.pow_le_pow_right (by decide) (by omega)

lemma le_two_mul_largestPowerOfTwoLessThan {n : Nat} : n ≤ 2 * largestPowerOfTwoLessThan n := by
  have hlt : n - 1 < 2 ^ (Nat.log2 (n - 1) + 1) := Nat.lt_log2_self
  rw [Nat.pow_succ] at hlt
  unfold largestPowerOfTwoLessThan
  omega

/-! ## The code -/

section
variable {Λ : Type} (hash : Preimage Λ Digest → Digest)

def emptyMerkleRoot : Digest := hash .empty

def nodeHash (left right : Digest) : Digest := hash (.node left right)

def treeHash : List Digest → Digest
  | [] => emptyMerkleRoot hash
  | [leaf] => leaf
  | first :: second :: rest =>
    let hashes := first :: second :: rest
    let split := largestPowerOfTwoLessThan hashes.length
    nodeHash hash (treeHash (hashes.take split)) (treeHash (hashes.drop split))
  termination_by hashes => hashes.length
  decreasing_by
    · have := largestPowerOfTwoLessThan_lt (n := (first :: second :: rest).length) (by simp)
      simp only [length_take]
      omega
    · have := largestPowerOfTwoLessThan_pos (first :: second :: rest).length
      simp only [length_drop, length_cons]
      simp only [length_cons] at this
      omega

def appendInclusionPath (hashes : List Digest) (leafIndex : Nat) :
    Except IdentityError (List Digest) :=
  if hashes.isEmpty ∨ leafIndex ≥ hashes.length then .error .invalidProof
  else if hashes.length = 1 then .ok []
  else
    let split := largestPowerOfTwoLessThan hashes.length
    if leafIndex < split then do
      let path ← appendInclusionPath (hashes.take split) leafIndex
      return path ++ [treeHash hash (hashes.drop split)]
    else do
      let path ← appendInclusionPath (hashes.drop split) (leafIndex - split)
      return path ++ [treeHash hash (hashes.take split)]
  termination_by hashes.length
  decreasing_by
    · rename_i hbad hone _
      have : 1 < hashes.length := by
        have := length_pos_iff.mpr (fun h => hbad (.inl (isEmpty_iff.mpr h)))
        omega
      have := largestPowerOfTwoLessThan_lt this
      simp only [length_take]
      omega
    · rename_i hbad _ _
      have := length_pos_iff.mpr (fun h => hbad (.inl (isEmpty_iff.mpr h)))
      have := largestPowerOfTwoLessThan_pos hashes.length
      simp only [length_drop]
      omega

/-- The next hash of the path; the state is the part of the path that is not read yet. -/
def nextPathHash : List Digest → Except IdentityError (Digest × List Digest)
  | [] => .error .invalidProof
  | hash :: rest => .ok (hash, rest)

def rootFromInclusion (leafHash : Digest) (leafIndex treeSize : Nat) (auditPath : List Digest) :
    Except IdentityError (Digest × List Digest) :=
  if treeSize = 0 ∨ leafIndex ≥ treeSize then .error .invalidProof
  else if treeSize = 1 then .ok (leafHash, auditPath)
  else
    let split := largestPowerOfTwoLessThan treeSize
    if leafIndex < split then do
      let (left, auditPath) ← rootFromInclusion leafHash leafIndex split auditPath
      let (right, auditPath) ← nextPathHash auditPath
      return (nodeHash hash left right, auditPath)
    else do
      let (right, auditPath) ←
        rootFromInclusion leafHash (leafIndex - split) (treeSize - split) auditPath
      let (left, auditPath) ← nextPathHash auditPath
      return (nodeHash hash left right, auditPath)
  termination_by treeSize
  decreasing_by
    · exact largestPowerOfTwoLessThan_lt (by omega)
    · have := largestPowerOfTwoLessThan_pos treeSize
      omega

/-- The loop of `inclusion_path_length`: the index that is left, and the length. -/
def inclusionPathLoop (leafIndex treeSize length : Nat) : Nat × Nat :=
  if 1 < treeSize then
    let split := largestPowerOfTwoLessThan treeSize
    if leafIndex ≥ split then inclusionPathLoop (leafIndex - split) (treeSize - split) (length + 1)
    else inclusionPathLoop leafIndex split (length + 1)
  else (leafIndex, length)
  termination_by treeSize
  decreasing_by
    · have := largestPowerOfTwoLessThan_pos treeSize
      omega
    · exact largestPowerOfTwoLessThan_lt (by omega)

def inclusionPathLength (leafIndex treeSize : Nat) : Except IdentityError Nat :=
  let (leafIndex, length) := inclusionPathLoop leafIndex treeSize 0
  if leafIndex ≠ 0 ∨ length > MAX_MERKLE_PROOF_HASHES then .error .invalidProof else .ok length

/-- A claimed position with an audit path, from the leaf up. -/
structure MerkleInclusionProof where
  leafIndex : Nat
  treeSize : Nat
  auditPath : List Digest

namespace MerkleInclusionProof

def new (leafIndex treeSize : Nat) (auditPath : List Digest) :
    Except IdentityError MerkleInclusionProof := do
  reject (auditPath.length > MAX_MERKLE_PROOF_HASHES)
    (.limitExceeded "Merkle audit path" auditPath.length MAX_MERKLE_PROOF_HASHES)
  reject (treeSize = 0 ∨ leafIndex ≥ treeSize) .invalidProof
  let expected ← inclusionPathLength leafIndex treeSize
  reject (auditPath.length ≠ expected) .invalidProof
  return ⟨leafIndex, treeSize, auditPath⟩

def verifyLeafHash (proof : MerkleInclusionProof) (leafHash expectedRoot : Digest) :
    Except IdentityError Unit := do
  let (actualRoot, unread) ←
    rootFromInclusion hash leafHash proof.leafIndex proof.treeSize proof.auditPath
  reject (unread ≠ [] ∨ actualRoot ≠ expectedRoot) .invalidProof

/-- `verify` of a leaf that is hashed in its own domain. -/
def verify (proof : MerkleInclusionProof) (leaf : Λ) (expectedRoot : Digest) :
    Except IdentityError Unit :=
  proof.verifyLeafHash hash (hash (.leaf leaf)) expectedRoot

end MerkleInclusionProof

/-- One generation of a provider log, in the order of the appends. -/
structure AppendOnlyMerkleLog where
  leafHashes : List Digest
  bounded : leafHashes.length ≤ MAX_MERKLE_LOG_LEAVES

namespace AppendOnlyMerkleLog

def fromLeafHashes (leafHashes : List Digest) : Except IdentityError AppendOnlyMerkleLog :=
  if bounded : leafHashes.length ≤ MAX_MERKLE_LOG_LEAVES then .ok ⟨leafHashes, bounded⟩
  else .error (.limitExceeded "provider Merkle log leaves" leafHashes.length MAX_MERKLE_LOG_LEAVES)

variable (log : AppendOnlyMerkleLog)

def treeSize : Nat := log.leafHashes.length

def root : Digest := treeHash hash log.leafHashes

def inclusionProof (leafIndex : Nat) : Except IdentityError MerkleInclusionProof := do
  reject (leafIndex ≥ log.treeSize) .invalidProof
  let auditPath ← appendInclusionPath hash log.leafHashes leafIndex
  MerkleInclusionProof.new leafIndex log.treeSize auditPath

end AppendOnlyMerkleLog
end

/-! ## The tree and its addresses -/

section
variable {Λ : Type} {i n k : Nat}

/-- The tree that `tree_hash` hashes. -/
def merkleTree : List Λ → LeafTree Λ
  | [] => .empty
  | [a] => .leaf a
  | a :: b :: rest =>
    let split := largestPowerOfTwoLessThan (a :: b :: rest).length
    .node (merkleTree ((a :: b :: rest).take split)) (merkleTree ((a :: b :: rest).drop split))
  termination_by leaves => leaves.length
  decreasing_by
    · have := largestPowerOfTwoLessThan_lt (n := (a :: b :: rest).length) (by simp)
      simp only [length_take]
      omega
    · have := largestPowerOfTwoLessThan_pos (a :: b :: rest).length
      simp only [length_drop, length_cons]
      simp only [length_cons] at this
      omega

def merkleAddress (leafIndex treeSize : Nat) : List Side :=
  if 1 < treeSize then
    let split := largestPowerOfTwoLessThan treeSize
    if leafIndex < split then .left :: merkleAddress leafIndex split
    else .right :: merkleAddress (leafIndex - split) (treeSize - split)
  else []
  termination_by treeSize
  decreasing_by
    · exact largestPowerOfTwoLessThan_lt (by omega)
    · have := largestPowerOfTwoLessThan_pos treeSize
      omega

lemma merkleTree_of_one_lt {leaves : List Λ}
    (hk : k = largestPowerOfTwoLessThan leaves.length) (h : 1 < leaves.length) :
    merkleTree leaves = .node (merkleTree (leaves.take k)) (merkleTree (leaves.drop k)) := by
  subst hk
  match leaves, h with
  | a :: b :: rest, _ => rw [merkleTree]

lemma treeHash_of_one_lt {hash : Preimage Λ Digest → Digest} {hashes : List Digest}
    (h : 1 < hashes.length) : treeHash hash hashes =
      nodeHash hash (treeHash hash (hashes.take (largestPowerOfTwoLessThan hashes.length)))
        (treeHash hash (hashes.drop (largestPowerOfTwoLessThan hashes.length))) := by
  match hashes, h with
  | a :: b :: rest, _ => rw [treeHash]

lemma merkle_induction {P : List Λ → Prop} (nil : P []) (leaf : ∀ a, P [a])
    (node : ∀ leaves split, 1 < leaves.length →
      split = largestPowerOfTwoLessThan leaves.length → 0 < split → split < leaves.length →
      P (leaves.take split) → P (leaves.drop split) → P leaves) (leaves : List Λ) : P leaves := by
  induction hn : leaves.length using Nat.strong_induction_on generalizing leaves with
  | _ n ih =>
    subst hn
    match leaves with
    | [] => exact nil
    | [a] => exact leaf a
    | a :: b :: rest =>
      have hlen : 1 < (a :: b :: rest).length := by simp
      have hpos := largestPowerOfTwoLessThan_pos (a :: b :: rest).length
      have hlt := largestPowerOfTwoLessThan_lt hlen
      refine node _ _ hlen rfl hpos hlt (ih _ ?_ _ rfl) (ih _ ?_ _ rfl)
      · rw [length_take]
        omega
      · rw [length_drop]
        omega

lemma leaves_merkleTree (leaves : List Λ) : (merkleTree leaves).leaves = leaves := by
  induction leaves using merkle_induction with
  | nil | leaf a => rw [merkleTree, LeafTree.leaves]
  | node leaves split hlen hsplit _ _ ihl ihr =>
    rw [merkleTree_of_one_lt rfl hlen, ← hsplit, LeafTree.leaves, ihl, ihr, take_append_drop]

lemma treeHash_eq_digest (hash : Preimage Λ Digest → Digest) (leaves : List Λ) :
    treeHash hash (leaves.map fun a => hash (.leaf a)) = (merkleTree leaves).digest hash := by
  induction leaves using merkle_induction with
  | nil => simp only [map_nil, treeHash, merkleTree, LeafTree.digest, emptyMerkleRoot]
  | leaf a => simp only [map_cons, map_nil, treeHash, merkleTree, LeafTree.digest]
  | node leaves split hlen hsplit _ _ ihl ihr =>
    rw [treeHash_of_one_lt (by simpa using hlen), length_map, ← hsplit, ← map_take,
      ← map_drop, ihl, ihr, merkleTree_of_one_lt rfl hlen, ← hsplit, LeafTree.digest, nodeHash]

lemma merkleAddress_left (hn : 1 < n) (hi : i < largestPowerOfTwoLessThan n) :
    merkleAddress i n = .left :: merkleAddress i (largestPowerOfTwoLessThan n) := by
  rw [merkleAddress]
  simp only [hn, hi, if_true]

lemma merkleAddress_right (hn : 1 < n) (hi : ¬ i < largestPowerOfTwoLessThan n) :
    merkleAddress i n = .right :: merkleAddress (i - largestPowerOfTwoLessThan n)
      (n - largestPowerOfTwoLessThan n) := by
  rw [merkleAddress]
  simp only [hn, hi, if_true, if_false]

lemma merkleAddress_one (i : Nat) : merkleAddress i 1 = [] := by
  rw [merkleAddress]
  simp

lemma get?_merkleTree (leaves : List Λ) (i : Nat) (h : i < leaves.length) :
    (merkleTree leaves).get? (merkleAddress i leaves.length) = leaves[i]? := by
  induction leaves using merkle_induction generalizing i with
  | nil => simp at h
  | leaf a =>
    obtain rfl : i = 0 := by simpa using h
    rw [length_singleton, merkleAddress_one, merkleTree]
    rfl
  | node leaves split hlen hsplit _ hlt ihl ihr =>
    rw [merkleTree_of_one_lt rfl hlen, ← hsplit]
    have htake : (leaves.take split).length = split := by rw [length_take]; omega
    by_cases hi : i < split
    · rw [merkleAddress_left hlen (hsplit ▸ hi), ← hsplit, LeafTree.get?]
      have := ihl i (by omega)
      rwa [htake, getElem?_take_of_lt hi] at this
    · rw [merkleAddress_right hlen (hsplit ▸ hi), ← hsplit, LeafTree.get?]
      have := ihr (i - split) (by rw [length_drop]; omega)
      rwa [length_drop, getElem?_drop, Nat.add_sub_cancel' (by omega)] at this

lemma length_merkleAddress_le (h : n ≤ 2 ^ k) : (merkleAddress i n).length ≤ k := by
  induction k generalizing i n with
  | zero =>
    rw [merkleAddress, if_neg (by omega)]
    exact Nat.le_refl 0
  | succ k ih =>
    by_cases hn : 1 < n
    · have hhalf := largestPowerOfTwoLessThan_le hn h
      by_cases hi : i < largestPowerOfTwoLessThan n
      · rw [merkleAddress_left hn hi, length_cons]
        exact Nat.succ_le_succ (ih hhalf)
      · have htwic := le_two_mul_largestPowerOfTwoLessThan (n := n)
        rw [merkleAddress_right hn hi, length_cons]
        exact Nat.succ_le_succ (ih (by omega))
    · rw [merkleAddress, if_neg hn]
      exact Nat.zero_le _

lemma inclusionPathLoop_eq {length : Nat} (h : i < n) :
    inclusionPathLoop i n length = (0, length + (merkleAddress i n).length) := by
  induction n using Nat.strong_induction_on generalizing i length with
  | _ n ih =>
    rw [inclusionPathLoop]
    by_cases hn : 1 < n
    · have hpos := largestPowerOfTwoLessThan_pos n
      have hlt := largestPowerOfTwoLessThan_lt hn
      by_cases hi : i < largestPowerOfTwoLessThan n
      · rw [if_pos hn, if_neg (by omega), ih _ hlt hi, merkleAddress_left hn hi, length_cons]
        congr 1
        omega
      · rw [if_pos hn, if_pos (by omega), ih _ (by omega) (by omega), merkleAddress_right hn hi,
          length_cons]
        congr 1
        omega
    · obtain ⟨rfl, rfl⟩ : i = 0 ∧ n = 1 := by omega
      rw [if_neg hn, merkleAddress_one]
      rfl

end

/-! ## Inclusion proofs -/

section
variable {Λ : Type} {hash : Preimage Λ Digest → Digest}
variable {path rest : List Digest} {x root : Digest}

lemma nextPathHash_ok (h : nextPathHash path = .ok (x, rest)) : path = x :: rest := by
  cases path with
  | nil => cases h
  | cons y path =>
    obtain ⟨rfl, rfl⟩ : y = x ∧ path = rest := by simpa [nextPathHash] using h
    rfl

lemma exists_concat_iff {side : Side} {address : List Side}
    (node : Digest → Digest → Digest) (hnode : ∀ sibling steps,
      climb hash x ((side, sibling) :: steps) = node (climb hash x steps) sibling) :
    (∃ below middle, (∃ used, path = used ++ middle ∧ used.length = address.length ∧
        climb hash x (address.zip used.reverse) = below) ∧ ∃ sibling unread,
        nextPathHash middle = .ok (sibling, unread) ∧ node below sibling = root ∧ unread = rest) ↔
      ∃ used, path = used ++ rest ∧ used.length = (side :: address).length ∧
        climb hash x ((side :: address).zip used.reverse) = root := by
  constructor
  · rintro ⟨_, _, ⟨used, rfl, hlen, rfl⟩, sibling, _, hnext, rfl, rfl⟩
    obtain rfl := nextPathHash_ok hnext
    refine ⟨used ++ [sibling], by simp, by simp [hlen], ?_⟩
    simp only [reverse_append, reverse_singleton, singleton_append, zip_cons_cons, hnode]
  · rintro ⟨used, rfl, hlen, rfl⟩
    obtain ⟨used, sibling, rfl⟩ : ∃ init last, used = init ++ [last] :=
      (eq_nil_or_concat' used).resolve_left (by rintro rfl; cases hlen)
    refine ⟨_, _, ⟨used, append_assoc .., by simpa using hlen, rfl⟩, sibling, rest, rfl, ?_, rfl⟩
    simp only [reverse_append, reverse_singleton, singleton_append, zip_cons_cons, hnode]

/-- The verifier climbs over the part of the path that it reads, from its last hash down. -/
lemma rootFromInclusion_ok {i n : Nat} :
    rootFromInclusion hash x i n path = .ok (root, rest) ↔ i < n ∧
      ∃ used, path = used ++ rest ∧ used.length = (merkleAddress i n).length ∧
        climb hash x ((merkleAddress i n).zip used.reverse) = root := by
  induction n using Nat.strong_induction_on generalizing i root path rest with
  | _ n ih =>
    rw [rootFromInclusion]
    by_cases hin : i < n
    · rw [if_neg (by omega)]
      simp only [hin, true_and]
      by_cases hone : n = 1
      · subst hone
        rw [if_pos rfl, merkleAddress_one]
        constructor
        · rintro ⟨⟩
          exact ⟨[], rfl, rfl, rfl⟩
        · rintro ⟨used, rfl, hlen, rfl⟩
          rw [length_eq_zero_iff.mp hlen]
          rfl
      have hn : 1 < n := by omega
      have hlt := largestPowerOfTwoLessThan_lt hn
      have hpos := largestPowerOfTwoLessThan_pos n
      rw [if_neg hone]
      by_cases hi : i < largestPowerOfTwoLessThan n
      · rw [merkleAddress_left hn hi, ← exists_concat_iff (nodeHash hash) fun _ _ => rfl]
        simp only [hi, if_true, bind_ok, pure_ok, Prod.exists, Prod.mk.injEq, ih _ hlt, true_and]
      · have hsub : i - largestPowerOfTwoLessThan n < n - largestPowerOfTwoLessThan n := by omega
        rw [merkleAddress_right hn hi,
          ← exists_concat_iff (fun right left => nodeHash hash left right) fun _ _ => rfl]
        simp only [hi, if_false, bind_ok, pure_ok, Prod.exists, Prod.mk.injEq,
          ih _ (Nat.sub_lt_self hpos hlt.le), hsub, true_and]
    · rw [if_pos (by omega)]
      exact iff_of_false nofun fun h => hin h.1

lemma appendInclusionPath_eq (leaves : List Λ) (i : Nat) (h : i < leaves.length) :
    appendInclusionPath hash (leaves.map fun a => hash (.leaf a)) i =
      .ok ((merkleTree leaves).siblings hash (merkleAddress i leaves.length)).reverse := by
  induction leaves using merkle_induction generalizing i with
  | nil => simp at h
  | leaf a =>
    obtain rfl : i = 0 := by simpa using h
    rw [appendInclusionPath, length_singleton, merkleAddress_one, merkleTree]
    rfl
  | node leaves split hlen hsplit _ hlt ihl ihr =>
    have htake : (leaves.take split).length = split := by rw [length_take]; omega
    have hnon : ¬ ((leaves.map fun a => hash (.leaf a)).isEmpty ∨
        i ≥ (leaves.map fun a => hash (.leaf a)).length) := by
      rw [isEmpty_iff_length_eq_zero, length_map]
      omega
    rw [appendInclusionPath, if_neg hnon, merkleTree_of_one_lt rfl hlen, length_map,
      if_neg (by omega), ← hsplit]
    simp only [← map_take, ← map_drop, treeHash_eq_digest]
    by_cases hi : i < split
    · have := ihl i (by omega)
      rw [htake] at this
      rw [merkleAddress_left hlen (hsplit ▸ hi), ← hsplit]
      simp only [hi, if_true, this, bind, Except.bind, pure, Except.pure, LeafTree.siblings,
        reverse_cons]
    · have := ihr (i - split) (by rw [length_drop]; omega)
      rw [length_drop] at this
      rw [merkleAddress_right hlen (hsplit ▸ hi), ← hsplit]
      simp only [hi, if_false, this, bind, Except.bind, pure, Except.pure, LeafTree.siblings,
        reverse_cons]

namespace MerkleInclusionProof

/-- The siblings of a proof with their sides, from the root down. -/
def steps (proof : MerkleInclusionProof) : List (Side × Digest) :=
  (merkleAddress proof.leafIndex proof.treeSize).zip proof.auditPath.reverse

variable {proof : MerkleInclusionProof} {i n : Nat}

lemma verify_ok {leaf : Λ} {root : Digest} :
    proof.verify hash leaf root = .ok () ↔ proof.leafIndex < proof.treeSize ∧
      proof.auditPath.length = (merkleAddress proof.leafIndex proof.treeSize).length ∧
      climb hash (hash (.leaf leaf)) proof.steps = root := by
  simp only [verify, verifyLeafHash, bind_ok, reject_ok, Prod.exists, not_or, not_not]
  constructor
  · rintro ⟨actual, unread, hroot, rfl, rfl⟩
    obtain ⟨hlt, used, hpath, hlen, hclim⟩ := rootFromInclusion_ok.mp hroot
    rw [append_nil] at hpath
    rw [steps, hpath]
    exact ⟨hlt, hlen, hclim⟩
  · rintro ⟨hlt, hlen, hclim⟩
    exact ⟨root, [], rootFromInclusion_ok.mpr ⟨hlt, _, (append_nil _).symm, hlen, hclim⟩, rfl, rfl⟩

lemma steps_map_fst
    (h : proof.auditPath.length = (merkleAddress proof.leafIndex proof.treeSize).length) :
    proof.steps.map Prod.fst = merkleAddress proof.leafIndex proof.treeSize :=
  map_fst_zip (by rw [length_reverse, h])

lemma new_ok {path : List Digest}
    (h : new i n path = .ok proof) : proof = ⟨i, n, path⟩ ∧ i < n := by
  simp only [new, bind_ok, reject_ok, pure_ok] at h
  obtain ⟨_, -, _, hbad, _, -, _, -, rfl⟩ := h
  exact ⟨rfl, by omega⟩

lemma new_eq {k : Nat} {path : List Digest} (hi : i < n) (hn : n ≤ 2 ^ k)
    (hk : k ≤ MAX_MERKLE_PROOF_HASHES) (hlen : path.length = (merkleAddress i n).length) :
    new i n path = .ok ⟨i, n, path⟩ := by
  have hbound := (length_merkleAddress_le (i := i) hn).trans hk
  rw [new, inclusionPathLength, inclusionPathLoop_eq hi]
  simp only [reject, bind, Except.bind, pure, Except.pure]
  rw [if_neg (by omega), if_neg (by omega)]
  simp only [Nat.zero_add, ne_eq, not_true_eq_false, false_or]
  rw [if_neg (by omega)]
  simp only [hlen, not_true_eq_false, if_false]

end MerkleInclusionProof

/-- The proof for an index: the siblings of the address in the tree. -/
def provenAt (hash : Preimage Λ Digest → Digest) (leaves : List Λ) (i : Nat) :
    MerkleInclusionProof :=
  ⟨i, leaves.length, ((merkleTree leaves).siblings hash (merkleAddress i leaves.length)).reverse⟩

section
variable {leaves : List Λ} {i : Nat} {leaf : Λ}

section
variable (h : leaves[i]? = some leaf)
include h

lemma length_siblings_merkleTree :
    ((merkleTree leaves).siblings hash (merkleAddress i leaves.length)).length =
      (merkleAddress i leaves.length).length := by
  obtain ⟨hi, -⟩ := List.getElem?_eq_some_iff.mp h
  exact length_siblings ((get?_merkleTree leaves i hi).trans h)

lemma new_provenAt (hbound : leaves.length ≤ MAX_MERKLE_LOG_LEAVES) :
    MerkleInclusionProof.new i leaves.length
      ((merkleTree leaves).siblings hash (merkleAddress i leaves.length)).reverse =
      .ok (provenAt hash leaves i) := by
  obtain ⟨hi, -⟩ := List.getElem?_eq_some_iff.mp h
  have hpow : MAX_MERKLE_LOG_LEAVES = 2 ^ 20 := by decide
  refine MerkleInclusionProof.new_eq (k := 20) hi (hpow ▸ hbound) (by decide) ?_
  rw [length_reverse, length_siblings_merkleTree h]

lemma verify_provenAt :
    (provenAt hash leaves i).verify hash leaf ((merkleTree leaves).digest hash) = .ok () := by
  obtain ⟨hi, -⟩ := List.getElem?_eq_some_iff.mp h
  refine MerkleInclusionProof.verify_ok.mpr ⟨hi, ?_, ?_⟩
  · rw [provenAt, length_reverse, length_siblings_merkleTree h]
  · rw [MerkleInclusionProof.steps, provenAt, reverse_reverse]
    exact climb_siblings ((get?_merkleTree leaves i hi).trans h)

end
end

/-- Everything that is hashed for the root of the leaves and for checking a proof of `leaf`. -/
def hashedFor (hash : Preimage Λ Digest → Digest) (leaves : List Λ) (proof : MerkleInclusionProof)
    (leaf : Λ) : Set (Preimage Λ Digest) :=
  (merkleTree leaves).preimages hash ∪
    insert (.leaf leaf) (climbed hash (hash (.leaf leaf)) proof.steps)

lemma get?_of_verify {leaves : List Λ} {proof : MerkleInclusionProof} {leaf : Λ}
    (hinj : Set.InjOn hash (hashedFor hash leaves proof leaf))
    (h : proof.verify hash leaf (treeHash hash (leaves.map fun a => hash (.leaf a))) = .ok ()) :
    (merkleTree leaves).get? (merkleAddress proof.leafIndex proof.treeSize) = some leaf := by
  rw [treeHash_eq_digest] at h
  obtain ⟨-, hlen, hclim⟩ := MerkleInclusionProof.verify_ok.mp h
  have hget := get?_of_climb hclim hinj
  rwa [MerkleInclusionProof.steps_map_fst hlen] at hget

/-- The log proves every leaf that it has at its index. Whatever verifies against
its root, at any claimed index and size, is a leaf of the log, and at the log's own size it is the
leaf at the claimed index, unless two of the hashed preimages collide. -/
theorem AppendOnlyMerkleLog.inclusion_sound_complete (hash : Preimage Λ Digest → Digest)
    (leaves : List Λ) (log : AppendOnlyMerkleLog)
    (hlog : AppendOnlyMerkleLog.fromLeafHashes (leaves.map fun a => hash (.leaf a)) = .ok log) :
    (∀ i leaf, leaves[i]? = some leaf → ∃ proof, log.inclusionProof hash i = .ok proof ∧
      proof.verifyLeafHash hash (hash (.leaf leaf)) (log.root hash) = .ok ()) ∧
    ∀ (proof : MerkleInclusionProof) (leaf : Λ), Set.InjOn hash (hashedFor hash leaves proof leaf) →
      proof.verifyLeafHash hash (hash (.leaf leaf)) (log.root hash) = .ok () →
      leaf ∈ leaves ∧ (proof.treeSize = leaves.length → leaves[proof.leafIndex]? = some leaf) := by
  obtain ⟨hbound, rfl⟩ : ∃ h, (⟨leaves.map fun a => hash (.leaf a), h⟩ : AppendOnlyMerkleLog) =
      log := by
    unfold fromLeafHashes at hlog
    split at hlog
    · exact ⟨_, Except.ok.inj hlog⟩
    · cases hlog
  rw [length_map] at hbound
  constructor
  · intro i leaf h
    obtain ⟨hi, -⟩ := List.getElem?_eq_some_iff.mp h
    refine ⟨provenAt hash leaves i, ?_, ?_⟩
    · rw [inclusionProof, treeSize, length_map]
      simp only [reject, bind, Except.bind, appendInclusionPath_eq leaves i hi]
      rw [if_neg (by omega)]
      exact new_provenAt h hbound
    · rw [root, treeHash_eq_digest]
      exact verify_provenAt h
  · intro proof leaf hinj h
    have hget := get?_of_verify hinj h
    have hmem := mem_leaves_of_get? hget
    rw [leaves_merkleTree] at hmem
    refine ⟨hmem, fun hsize => ?_⟩
    have hi : proof.leafIndex < leaves.length := hsize ▸ (MerkleInclusionProof.verify_ok.mp h).1
    rw [hsize] at hget
    exact (get?_merkleTree leaves _ hi).symm.trans hget

def twoLeafHash : Preimage Bool Digest → Digest
  | .leaf false => FixedBytes.zero 32
  | .leaf true => FixedBytes.max 32
  | .node _ _ => ⟨replicate 32 1, length_replicate⟩
  | .empty => ⟨replicate 32 2, length_replicate⟩

lemma merkleTree_two {Λ : Type} (a b : Λ) : merkleTree [a, b] = .node (.leaf a) (.leaf b) := by
  have hsplit : largestPowerOfTwoLessThan 2 = 1 := by decide
  rw [merkleTree_of_one_lt rfl (by simp)]
  simp only [length_cons, length_nil, Nat.zero_add, hsplit, take_succ_cons, take_zero,
    drop_succ_cons, drop_zero, merkleTree]

theorem twoLeafHash_inclusion : ∃ log, AppendOnlyMerkleLog.fromLeafHashes
        ([false, true].map fun a => twoLeafHash (.leaf a)) = .ok log ∧
      Set.InjOn twoLeafHash (hashedFor twoLeafHash [false, true]
        (provenAt twoLeafHash [false, true] 1) true) ∧
      (provenAt twoLeafHash [false, true] 1).verifyLeafHash twoLeafHash
        (twoLeafHash (.leaf true)) (log.root twoLeafHash) = .ok () ∧
      true ∈ [false, true] := by
  have hsplit : largestPowerOfTwoLessThan 2 = 1 := by decide
  have haddress : merkleAddress 1 2 = [.right] := by
    rw [merkleAddress_right (by decide) (by decide), hsplit, merkleAddress_one]
  have hinj : Set.InjOn twoLeafHash (hashedFor twoLeafHash [false, true]
      (provenAt twoLeafHash [false, true] 1) true) := by
    simp only [hashedFor, merkleTree_two, MerkleInclusionProof.steps, provenAt, length_cons,
      length_nil, haddress]
    rintro p hp q hq hpq
    simp [LeafTree.preimages, LeafTree.siblings, climbed, climb, LeafTree.digest] at hp hq
    rcases hp with rfl | rfl | rfl <;> rcases hq with rfl | rfl | rfl <;>
      first | rfl | (revert hpq; decide)
  have hverify : (provenAt twoLeafHash [false, true] 1).verifyLeafHash twoLeafHash
      (twoLeafHash (.leaf true)) (treeHash twoLeafHash
        ([false, true].map fun a => twoLeafHash (.leaf a))) = .ok () := by
    rw [treeHash_eq_digest]
    exact verify_provenAt rfl
  exact ⟨_, rfl, hinj, hverify,
    ((AppendOnlyMerkleLog.inclusion_sound_complete twoLeafHash [false, true] _ rfl).2 _ _ hinj
      hverify).1⟩

end
end Krikos.Identity
