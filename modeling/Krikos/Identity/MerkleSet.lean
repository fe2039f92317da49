import Krikos.Identity.Merkle

/-!
# Identity.MerkleSet

Sorted Merkle sets and proofs that a key is absent: the two neighbours of the place where the key
would stand, or one neighbour at an end, or an empty tree.

The root does not commit the number of leaves, so a forged proof may claim any size. Its two
positions still have adjacent addresses, and leaves at adjacent addresses are neighbours in every
tree.
-/

namespace Krikos.Identity

open Lib List FixedBytes
open Lib.HashTree

/-! ## Keys and leaves -/

structure MerkleSetKey where
  typeTag : Nat
  id : Digest
  nonzero : typeTag ≠ 0

namespace MerkleSetKey

def new (typeTag : Nat) (id : Digest) : Except IdentityError MerkleSetKey :=
  if nonzero : typeTag ≠ 0 then .ok ⟨typeTag, id, nonzero⟩
  else .error (.zeroValue "Merkle set leaf type tag")

def order (key : MerkleSetKey) : Nat ×ₗ Digest := toLex (key.typeTag, key.id)

lemma order_injective : Function.Injective order := by
  rintro ⟨tag, id, h⟩ ⟨tag', id', h'⟩ heq
  obtain ⟨rfl, rfl⟩ : tag = tag' ∧ id = id' := by simpa [order] using heq
  rfl

end MerkleSetKey

/-- The derived order: the type tag first, then the identifier. -/
instance instLinearOrderMerkleSetKey : LinearOrder MerkleSetKey :=
  LinearOrder.lift' MerkleSetKey.order MerkleSetKey.order_injective

structure MerkleSetLeaf where
  key : MerkleSetKey
  valueHash : Digest
  deriving DecidableEq

/-! ## The code -/

/-- A complete set of leaves, sorted by key and without duplicates. -/
structure MerkleSet where
  entries : List MerkleSetLeaf
  bounded : entries.length ≤ MAX_MERKLE_SET_LEAVES
  sorted : SortedBy MerkleSetLeaf.key entries

structure MerkleNeighbor where
  leaf : MerkleSetLeaf
  proof : MerkleInclusionProof

structure MerkleNonMembershipProof where
  treeSize : Nat
  predecessor : Option MerkleNeighbor
  successor : Option MerkleNeighbor

open MerkleNonMembershipProof

def MerkleNonMembershipProof.neighbors (proof : MerkleNonMembershipProof) : List MerkleNeighbor :=
  proof.predecessor.toList ++ proof.successor.toList

/-- The indices are `u64`, and so is the index after a left neighbour: at the last `u64` there is
no right one. -/
def validateNeighborShape (proof : MerkleNonMembershipProof) : Except IdentityError Unit :=
  if proof.treeSize = 0 then
    reject (¬ (proof.predecessor.isNone ∧ proof.successor.isNone)) .invalidProof
  else do
    reject (∃ neighbor ∈ proof.neighbors, neighbor.proof.treeSize ≠ proof.treeSize) .invalidProof
    match proof.predecessor, proof.successor with
    | none, none => .error .invalidProof
    | none, some right => reject (right.proof.leafIndex ≠ 0) .invalidProof
    | some left, none => reject (left.proof.leafIndex ≠ proof.treeSize - 1) .invalidProof
    | some left, some right =>
      reject (left.proof.leafIndex + 1 ≠ right.proof.leafIndex ∨ left.leaf.key ≥ right.leaf.key)
        .invalidProof

def MerkleNonMembershipProof.new (treeSize : Nat) (predecessor successor : Option MerkleNeighbor) :
    Except IdentityError MerkleNonMembershipProof := do
  validateNeighborShape ⟨treeSize, predecessor, successor⟩
  return ⟨treeSize, predecessor, successor⟩

section
variable (hash : Preimage MerkleSetLeaf Digest → Digest)

namespace MerkleSet
variable {entries : List MerkleSetLeaf}

lemma sorted_of_distinct (h : ((sortByKey MerkleSetLeaf.key entries).map MerkleSetLeaf.key).Nodup) :
    SortedBy MerkleSetLeaf.key (sortByKey MerkleSetLeaf.key entries) :=
  sortedBy_sortByKey ((perm_sortByKey.map _).nodup_iff.mp h)

lemma bounded_of_sort (h : ¬ entries.length > MAX_MERKLE_SET_LEAVES) :
    (sortByKey MerkleSetLeaf.key entries).length ≤ MAX_MERKLE_SET_LEAVES := by
  rw [perm_sortByKey.length_eq]
  omega

def new (entries : List MerkleSetLeaf) : Except IdentityError MerkleSet :=
  if bounded : entries.length > MAX_MERKLE_SET_LEAVES then
    .error (.limitExceeded "Merkle set leaves" entries.length MAX_MERKLE_SET_LEAVES)
  else if distinct : ((sortByKey MerkleSetLeaf.key entries).map MerkleSetLeaf.key).Nodup then
    .ok ⟨_, bounded_of_sort bounded, sorted_of_distinct distinct⟩
  else .error (.duplicateElement "Merkle set leaf key")

variable (set : MerkleSet)

def leafHashes : List Digest := set.entries.map fun leaf => hash (.leaf leaf)

def root : Digest := treeHash hash (set.leafHashes hash)

def inclusionProofAt (leafIndex : Nat) : Except IdentityError MerkleInclusionProof := do
  let auditPath ← appendInclusionPath hash (set.leafHashes hash) leafIndex
  MerkleInclusionProof.new leafIndex (set.leafHashes hash).length auditPath

/-- The entry at an index within the set, with its proof. -/
def neighborAt (index : Nat) : Except IdentityError (Option MerkleNeighbor) :=
  match set.entries[index]? with
  | none => .ok none
  | some leaf => do
    let proof ← set.inclusionProofAt hash index
    return some ⟨leaf, proof⟩

def predecessorOf (insertion : Nat) : Except IdentityError (Option MerkleNeighbor) :=
  if insertion = 0 then .ok none else set.neighborAt hash (insertion - 1)

def successorOf (insertion : Nat) : Except IdentityError (Option MerkleNeighbor) :=
  if insertion = set.entries.length then .ok none else set.neighborAt hash insertion

def nonMembershipProof (query : MerkleSetKey) : Except IdentityError MerkleNonMembershipProof :=
  match search MerkleSetLeaf.key query set.entries with
  | .ok _ => .error (.invalidRelationship "Merkle non-membership query is present")
  | .error insertion => do
    let predecessor ← set.predecessorOf hash insertion
    let successor ← set.successorOf hash insertion
    MerkleNonMembershipProof.new set.entries.length predecessor successor

end MerkleSet

namespace MerkleNonMembershipProof

/-- The neighbour is in the tree and on its side of the query. -/
def verifyNeighbor (neighbor : MerkleNeighbor) (misplaced : Prop) [Decidable misplaced]
    (expectedRoot : Digest) : Except IdentityError Unit := do
  neighbor.proof.verify hash neighbor.leaf expectedRoot
  reject misplaced .invalidProof

def verify (proof : MerkleNonMembershipProof) (query : MerkleSetKey) (expectedRoot : Digest) :
    Except IdentityError Unit := do
  validateNeighborShape proof
  if proof.treeSize = 0 then reject (expectedRoot ≠ emptyMerkleRoot hash) .invalidProof
  else do
    match proof.predecessor with
    | none => pure ()
    | some left => verifyNeighbor hash left (left.leaf.key ≥ query) expectedRoot
    match proof.successor with
    | none => pure ()
    | some right => verifyNeighbor hash right (right.leaf.key ≤ query) expectedRoot

end MerkleNonMembershipProof
end

/-! ## Addresses at the ends and side by side -/

lemma merkleAddress_first (n : Nat) : ∃ k, merkleAddress 0 n = replicate k .left := by
  induction n using Nat.strong_induction_on with
  | _ n ih =>
    by_cases hn : 1 < n
    · obtain ⟨k, hk⟩ := ih _ (largestPowerOfTwoLessThan_lt hn)
      exact ⟨k + 1, by rw [merkleAddress_left hn (largestPowerOfTwoLessThan_pos n), hk]; rfl⟩
    · exact ⟨0, by rw [merkleAddress, if_neg hn]; rfl⟩

lemma merkleAddress_last (n : Nat) : ∃ k, merkleAddress (n - 1) n = replicate k .right := by
  induction n using Nat.strong_induction_on with
  | _ n ih =>
    by_cases hn : 1 < n
    · have hlt := largestPowerOfTwoLessThan_lt hn
      have hpos := largestPowerOfTwoLessThan_pos n
      obtain ⟨k, hk⟩ := ih (n - largestPowerOfTwoLessThan n) (by omega)
      refine ⟨k + 1, ?_⟩
      rw [merkleAddress_right hn (by omega),
        show n - 1 - largestPowerOfTwoLessThan n = n - largestPowerOfTwoLessThan n - 1 by omega, hk]
      rfl
    · exact ⟨0, by rw [merkleAddress, if_neg hn]; rfl⟩

lemma merkleAddress_adjacent {i n : Nat} (h : i + 1 < n) :
    Adjacent (merkleAddress i n) (merkleAddress (i + 1) n) := by
  induction n using Nat.strong_induction_on generalizing i with
  | _ n ih =>
    have hn : 1 < n := by omega
    have hlt := largestPowerOfTwoLessThan_lt hn
    have hpos := largestPowerOfTwoLessThan_pos n
    by_cases hnext : i + 1 < largestPowerOfTwoLessThan n
    · rw [merkleAddress_left hn (by omega), merkleAddress_left hn hnext]
      exact .cons .left (ih _ hlt hnext)
    by_cases hi : i < largestPowerOfTwoLessThan n
    · -- the split is right between the two indices
      obtain ⟨j, hj⟩ := merkleAddress_last (largestPowerOfTwoLessThan n)
      obtain ⟨k, hk⟩ := merkleAddress_first (n - largestPowerOfTwoLessThan n)
      have hlast : i = largestPowerOfTwoLessThan n - 1 := by omega
      have hfir : i + 1 - largestPowerOfTwoLessThan n = 0 := by omega
      rw [merkleAddress_left hn hi, merkleAddress_right hn hnext, hfir, hk, hlast, hj]
      exact .part j k
    · rw [merkleAddress_right hn hi, merkleAddress_right hn hnext,
        show i + 1 - largestPowerOfTwoLessThan n = i - largestPowerOfTwoLessThan n + 1 by omega]
      exact .cons .right (ih _ (by omega) (by omega))

/-! ## Completeness -/

variable {hash : Preimage MerkleSetLeaf Digest → Digest} {set : MerkleSet}

lemma MerkleSet.root_eq : set.root hash = (merkleTree set.entries).digest hash :=
  treeHash_eq_digest hash set.entries

variable {leaf : MerkleSetLeaf}

lemma MerkleSet.neighborAt_eq {i : Nat} (h : set.entries[i]? = some leaf) :
    set.neighborAt hash i = .ok (some ⟨leaf, provenAt hash set.entries i⟩) := by
  obtain ⟨hi, -⟩ := List.getElem?_eq_some_iff.mp h
  have hboun : set.entries.length ≤ MAX_MERKLE_LOG_LEAVES := set.bounded.trans (by decide)
  rw [neighborAt, h]
  simp only [inclusionProofAt, leafHashes, appendInclusionPath_eq set.entries i hi, length_map,
    bind, Except.bind, new_provenAt h hboun, pure, Except.pure]

lemma verifyNeighbor_provenAt {i : Nat} {misplaced : Prop}
    [Decidable misplaced] (h : set.entries[i]? = some leaf) (hplac : ¬ misplaced) :
    verifyNeighbor hash ⟨leaf, provenAt hash set.entries i⟩ misplaced
      (set.root hash) = .ok () := by
  rw [verifyNeighbor, MerkleSet.root_eq]
  simp only [verify_provenAt h, bind, Except.bind, reject, hplac, if_false]

variable {query : MerkleSetKey} {before rest : List MerkleSetLeaf}
variable (hash)

lemma MerkleSet.predecessor_eq
    (h : set.entries = before ++ rest) (hbef : ∀ leaf ∈ before, leaf.key < query) :
    ∃ left, set.predecessorOf hash before.length = .ok left ∧
      (left = none ∧ before = [] ∨ ∃ init leaf, before = init ++ [leaf] ∧
        left = some ⟨leaf, provenAt hash set.entries init.length⟩ ∧
        verifyNeighbor hash
          ⟨leaf, provenAt hash set.entries init.length⟩ (leaf.key ≥ query) (set.root hash) =
          .ok ()) := by
  rcases eq_nil_or_concat' before with rfl | ⟨init, leaf, rfl⟩
  · exact ⟨none, rfl, .inl ⟨rfl, rfl⟩⟩
  · have hget : set.entries[init.length]? = some leaf := by rw [h]; simp
    have hlt := hbef leaf (by simp)
    refine ⟨_, ?_, .inr ⟨init, leaf, rfl, rfl, ?_⟩⟩
    · rw [predecessorOf, if_neg (by simp), length_append, length_singleton, Nat.add_sub_cancel]
      exact MerkleSet.neighborAt_eq hget
    · exact verifyNeighbor_provenAt hget (not_le.mpr hlt)

lemma MerkleSet.successor_eq
    (h : set.entries = before ++ rest) (hrest : ∀ leaf ∈ rest, query < leaf.key) :
    ∃ right, set.successorOf hash before.length = .ok right ∧
      (right = none ∧ rest = [] ∨ ∃ leaf tail, rest = leaf :: tail ∧
        right = some ⟨leaf, provenAt hash set.entries before.length⟩ ∧
        verifyNeighbor hash
          ⟨leaf, provenAt hash set.entries before.length⟩ (leaf.key ≤ query) (set.root hash) =
          .ok ()) := by
  cases rest with
  | nil => exact ⟨none, by rw [successorOf, h, append_nil, if_pos rfl], .inl ⟨rfl, rfl⟩⟩
  | cons leaf tail =>
    have hget : set.entries[before.length]? = some leaf := by rw [h]; simp
    have hlt := hrest leaf (by simp)
    refine ⟨_, ?_, .inr ⟨leaf, tail, rfl, rfl, ?_⟩⟩
    · rw [successorOf, if_neg (by rw [h]; simp)]
      exact MerkleSet.neighborAt_eq hget
    · exact verifyNeighbor_provenAt hget (not_le.mpr hlt)

variable {hash}

lemma MerkleSet.nonMembershipProof_complete (h : ∀ leaf ∈ set.entries, leaf.key ≠ query) :
    ∃ proof, set.nonMembershipProof hash query = .ok proof ∧
      proof.verify hash query (set.root hash) = .ok () := by
  cases hsear : search MerkleSetLeaf.key query set.entries with
  | ok i =>
    obtain ⟨leaf, hleaf, hkey⟩ := mem_of_search_ok hsear
    exact absurd hkey (h leaf hleaf)
  | error i =>
    obtain ⟨before, rest, heq, rfl, hbef, hrest⟩ := search_error set.sorted hsear
    obtain ⟨left, hleft, hl⟩ := MerkleSet.predecessor_eq hash heq hbef
    obtain ⟨right, hrig, hr⟩ := MerkleSet.successor_eq hash heq hrest
    have hshap : validateNeighborShape ⟨set.entries.length, left, right⟩ = .ok () := by
      have hsor := set.sorted
      rw [heq] at hsor
      have hlt := (pairwise_append.mp hsor).2.2
      rcases hl with ⟨rfl, rfl⟩ | ⟨init, b, rfl, rfl, -⟩ <;>
        rcases hr with ⟨rfl, rfl⟩ | ⟨r, tail, rfl, rfl, -⟩ <;>
        simp_all [validateNeighborShape, reject, bind, Except.bind, provenAt,
          MerkleNonMembershipProof.neighbors]
    have hver : MerkleNonMembershipProof.verify hash ⟨set.entries.length, left, right⟩ query
        (set.root hash) = .ok () := by
      rw [MerkleNonMembershipProof.verify, hshap]
      rcases hl with ⟨rfl, rfl⟩ | ⟨init, b, rfl, rfl, hb⟩ <;>
        rcases hr with ⟨rfl, rfl⟩ | ⟨r, tail, rfl, rfl, hr⟩
      · have hroot : set.root hash = emptyMerkleRoot hash := by
          rw [root, leafHashes, heq, append_nil, map_nil, treeHash]
        simp [heq, hroot, reject, bind, Except.bind]
      all_goals have hlen : set.entries.length ≠ 0 := by simp [heq]
      · simp only [bind, Except.bind, hlen, if_false, hr]
      · simp only [bind, Except.bind, hlen, if_false, pure, Except.pure, hb]
      · simp only [bind, Except.bind, hlen, if_false, hb, hr]
    refine ⟨⟨set.entries.length, left, right⟩, ?_, hver⟩
    simp only [nonMembershipProof, hsear, hleft, hrig, bind, Except.bind,
      MerkleNonMembershipProof.new, hshap, pure, Except.pure]

/-! ## Soundness -/

/-- Everything that is hashed for the root of the set and for checking a proof of absence. -/
def hashedForAbsence (hash : Preimage MerkleSetLeaf Digest → Digest) (set : MerkleSet)
    (proof : MerkleNonMembershipProof) : Set (Preimage MerkleSetLeaf Digest) :=
  {p | p = .empty ∨ p ∈ (merkleTree set.entries).preimages hash ∨
    ∃ neighbor ∈ proof.neighbors, p ∈ hashedFor hash set.entries neighbor.proof neighbor.leaf}

variable {proof : MerkleNonMembershipProof}

lemma get?_of_verifyNeighbor {neighbor : MerkleNeighbor} {misplaced : Prop} [Decidable misplaced]
    (hinj : Set.InjOn hash (hashedForAbsence hash set proof)) (hmem : neighbor ∈ proof.neighbors)
    (h : verifyNeighbor hash neighbor misplaced (set.root hash) = .ok ()) :
    (merkleTree set.entries).get?
      (merkleAddress neighbor.proof.leafIndex neighbor.proof.treeSize) = some neighbor.leaf ∧
    neighbor.proof.leafIndex < neighbor.proof.treeSize ∧ ¬ misplaced := by
  simp only [verifyNeighbor, bind_ok, reject_ok] at h
  obtain ⟨⟨⟩, hver, hplac⟩ := h
  have hsub : hashedFor hash set.entries neighbor.proof neighbor.leaf ⊆
      hashedForAbsence hash set proof :=
    fun p hp => .inr (.inr ⟨neighbor, hmem, hp⟩)
  exact ⟨get?_of_verify (hinj.mono hsub) hver, (MerkleInclusionProof.verify_ok.mp hver).1, hplac⟩

lemma MerkleSet.nonMembershipProof_sound (hleaf : leaf ∈ set.entries) (hkey : leaf.key = query)
    (hinj : Set.InjOn hash (hashedForAbsence hash set proof)) :
    proof.verify hash query (set.root hash) ≠ .ok () := by
  intro h
  have hsor := set.sorted
  have hleav := leaves_merkleTree set.entries
  obtain ⟨treeSize, predecessor, successor⟩ := proof
  simp only [verify, bind_ok] at h
  obtain ⟨⟨⟩, hshap, h⟩ := h
  unfold validateNeighborShape at hshap
  split at h
  · -- only the empty tree has the root of the empty tree
    rw [reject_ok, not_not, MerkleSet.root_eq] at h
    have hemp := eq_empty_of_digest h (hinj.mono fun p hp => hp.imp id Or.inl)
    rw [hemp, LeafTree.leaves] at hleav
    rw [← hleav] at hleaf
    cases hleaf
  rename_i hsize
  rw [if_neg hsize] at hshap
  simp only [bind_ok, reject_ok] at hshap
  obtain ⟨⟨⟩, hsiz, hshap⟩ := hshap
  simp only [not_exists, not_and, not_not, neighbors] at hsiz
  cases predecessor with
  | none =>
    cases successor with
    | none => cases hshap
    | some right =>
      -- the first leaf is behind the query
      obtain ⟨hget, -, hplac⟩ := get?_of_verifyNeighbor hinj (by
        simp [neighbors]) h
      have hind : right.proof.leafIndex = 0 := not_not.mp (reject_ok.mp hshap)
      obtain ⟨k, hk⟩ := merkleAddress_first right.proof.treeSize
      rw [hind, hk] at hget
      obtain ⟨rest, hrest⟩ := leaves_of_outermost hget
      rw [hleav] at hrest
      rw [hrest] at hsor hleaf
      rcases mem_cons.mp hleaf with rfl | hmem
      · exact hplac hkey.le
      · exact hplac ((pairwise_cons.mp hsor).1 leaf hmem |>.le.trans hkey.le)
  | some left =>
    obtain ⟨⟨⟩, hpred, hsucc⟩ := bind_ok.mp h
    obtain ⟨hget, hlt, hplac⟩ := get?_of_verifyNeighbor hinj (by
      simp [neighbors]) hpred
    cases successor with
    | none =>
      -- the last leaf is before the query
      have hind := not_not.mp (reject_ok.mp hshap)
      have hleft := hsiz left (by simp)
      obtain ⟨k, hk⟩ := merkleAddress_last treeSize
      rw [hleft, hind, hk] at hget
      obtain ⟨before, hbef⟩ := leaves_of_outermost hget
      rw [hleav] at hbef
      rw [hbef] at hsor hleaf
      rcases mem_append.mp hleaf with hmem | hmem
      · have hkeys := (pairwise_append.mp hsor).2.2 leaf hmem left.leaf (by simp)
        exact hplac (hkey.ge.trans hkeys.le)
      · obtain rfl := mem_singleton.mp hmem
        exact hplac hkey.ge
    | some right =>
      -- the query is between two leaves that stand side by side
      obtain ⟨hget', hlt', hplac'⟩ := get?_of_verifyNeighbor hinj (by
        simp [neighbors]) hsucc
      have hind := not_not.mp (not_or.mp (reject_ok.mp hshap)).1
      have hleft := hsiz left (by simp)
      have hrig := hsiz right (by simp)
      rw [hleft] at hget
      rw [hrig, ← hind] at hget'
      obtain ⟨before, rest, hspl⟩ :=
        leaves_of_adjacent (merkleAddress_adjacent (by omega)) hget hget'
      rw [hleav] at hspl
      rw [hspl] at hsor hleaf
      obtain ⟨-, htail, hcros⟩ := pairwise_append.mp hsor
      have hbeh := (pairwise_cons.mp (pairwise_cons.mp htail).2).1
      simp only [mem_append, mem_cons] at hleaf
      rcases hleaf with hmem | rfl | rfl | hmem
      · exact hplac (hkey.ge.trans (hcros leaf hmem left.leaf (by simp)).le)
      · exact hplac hkey.ge
      · exact hplac' hkey.le
      · exact hplac' ((hbeh leaf hmem).le.trans hkey.le)

/-- A key that is not in the set has a generated proof of absence that verifies;
for a key in the set no proof object verifies, whatever sizes and positions it claims, unless two
of the hashed preimages collide. -/
theorem MerkleSet.nonMembership_sound_complete (hash : Preimage MerkleSetLeaf Digest → Digest)
    (set : MerkleSet) (query : MerkleSetKey) :
    ((∀ leaf ∈ set.entries, leaf.key ≠ query) →
      ∃ proof, set.nonMembershipProof hash query = .ok proof ∧
        proof.verify hash query (set.root hash) = .ok ()) ∧
    ((∃ leaf ∈ set.entries, leaf.key = query) → ∀ proof : MerkleNonMembershipProof,
        Set.InjOn hash (hashedForAbsence hash set proof) →
        proof.verify hash query (set.root hash) ≠ .ok ()) :=
  ⟨MerkleSet.nonMembershipProof_complete, fun ⟨_, hleaf, hkey⟩ _ hinj =>
    MerkleSet.nonMembershipProof_sound hleaf hkey hinj⟩

def tagged (n : Nat) : MerkleSetLeaf := ⟨⟨n + 1, zero 32, n.succ_ne_zero⟩, zero 32⟩

def pairSet : MerkleSet where
  entries := [tagged 0, tagged 2]
  bounded := Nat.le_of_ble_eq_true rfl
  sorted := pairwise_pair.mpr (by decide)

def pairHash (preimage : Preimage MerkleSetLeaf Digest) : Digest :=
  ⟨replicate 32 (match preimage with
    | .empty => 0
    | .leaf leaf => .ofNat 256 leaf.key.typeTag
    | .node _ _ => 4), length_replicate⟩

/-- The forged proof names the second leaf as the only one, behind the key of the first. -/
def pairForgery : MerkleNonMembershipProof :=
  ⟨1, none, some ⟨tagged 2, ⟨0, 1, []⟩⟩⟩

theorem pairSet_nonMembership : Set.InjOn pairHash (hashedForAbsence pairHash pairSet pairForgery) ∧
      pairForgery.verify pairHash (tagged 0).key (pairSet.root pairHash) ≠ .ok () ∧
      ∃ proof, pairSet.nonMembershipProof pairHash (tagged 1).key = .ok proof ∧
        proof.verify pairHash (tagged 1).key (pairSet.root pairHash) = .ok () := by
  have hinj : Set.InjOn pairHash (hashedForAbsence pairHash pairSet pairForgery) := by
    have htree : merkleTree pairSet.entries = .node (.leaf (tagged 0)) (.leaf (tagged 2)) := by
      rw [merkleTree_of_one_lt (k := 1) (by decide) (by decide)]
      simp [pairSet, merkleTree]
    intro p hp q hq hpq
    simp only [hashedForAbsence, htree, pairForgery, neighbors, hashedFor,
      MerkleInclusionProof.steps, merkleAddress_one, LeafTree.preimages, climbed, zip_nil_left,
      Option.toList, nil_append, mem_singleton, exists_eq_left, Set.mem_ofPred_eq, Set.mem_union,
      Set.mem_singleton_iff, Set.mem_insert_iff, Set.mem_empty_iff_false, or_false,
      or_self_left] at hp hq
    rcases hp with rfl | (rfl | rfl | rfl) | rfl <;>
      rcases hq with rfl | (rfl | rfl | rfl) | rfl <;> first | rfl | (revert hpq; decide)
  have hset := MerkleSet.nonMembership_sound_complete pairHash pairSet
  exact ⟨hinj, (hset _).2 ⟨_, mem_cons_self, rfl⟩ pairForgery hinj, (hset _).1 (by decide)⟩

end Krikos.Identity
