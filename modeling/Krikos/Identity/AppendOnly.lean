import Krikos.Identity.Consistency

/-!
# Identity.AppendOnly

What consistency proofs show. The prover has the siblings of the sides that the verifier takes, so
that a log proves each of its prefixes; and equal roots give equal leaves side by side, so that
whatever verifies between two logs shows a prefix.
-/

namespace Krikos.Identity

open Lib List MerkleConsistencyProof AppendOnlyMerkleLog
open Lib.HashTree

/-! ## The prover -/

section
variable {Λ : Type} {hash : Preimage Λ Digest → Digest} {m n k : Nat}

lemma largestPowerOfTwoLessThan_eq (hk : k = largestPowerOfTwoLessThan n)
    (hlt : k < m) (h : m < n) : largestPowerOfTwoLessThan m = k := by
  have htwic := le_two_mul_largestPowerOfTwoLessThan (n := n)
  obtain ⟨t, rfl⟩ : ∃ t, k = 2 ^ t := ⟨_, hk⟩
  have hpos : 0 < 2 ^ t := Nat.two_pow_pos t
  have hlog : Nat.log2 (m - 1) = t :=
    (Nat.log2_eq_iff (by omega)).mpr ⟨by omega, by rw [Nat.pow_succ]; omega⟩
  rw [largestPowerOfTwoLessThan, hlog]

lemma merkleTree_take {leaves : List Λ} (hk : k = largestPowerOfTwoLessThan leaves.length)
    (hlt : k < m) (h : m < leaves.length) : merkleTree (leaves.take m) =
      .node (merkleTree (leaves.take k)) (merkleTree ((leaves.drop k).take (m - k))) := by
  have hlen : (leaves.take m).length = m := by rw [length_take]; omega
  have hpos := largestPowerOfTwoLessThan_pos leaves.length
  have hone : 1 < (leaves.take m).length := by omega
  rw [merkleTree_of_one_lt rfl hone, hlen, largestPowerOfTwoLessThan_eq hk hlt h, take_take,
    Nat.min_eq_left hlt.le, drop_take]

/-- What the prover has for a prefix of some leaves: the digest of the subtree where the prefix ends,
and the digests beside the sides that lead to it. -/
structure Proves (hash : Preimage Λ Digest → Digest) (leaves : List Λ) (m : Nat) (seed : Digest)
    (siblings : List Digest) : Prop where
  path : ∀ complete, appendConsistencyPath hash m (leaves.map fun a => hash (.leaf a)) complete =
    .ok ((if complete ∧ .right ∉ consistencySides m leaves.length then [] else [seed]) ++
      siblings.reverse)
  length : siblings.length = (consistencySides m leaves.length).length
  old : climb hash seed (rightSteps ((consistencySides m leaves.length).zip siblings)) =
    (merkleTree (leaves.take m)).digest hash
  new : climb hash seed ((consistencySides m leaves.length).zip siblings) =
    (merkleTree leaves).digest hash

lemma exists_proves (hash : Preimage Λ Digest → Digest) {leaves : List Λ} (hm : 0 < m)
    (h : m ≤ leaves.length) : ∃ seed siblings, Proves hash leaves m seed siblings := by
  generalize hn : leaves.length = n at h
  induction m, n, hm, h using consistency_induction generalizing leaves with
  | done n hpos =>
    subst hn
    refine ⟨(merkleTree leaves).digest hash, [], fun complete => ?_, ?_, ?_, ?_⟩
    · rw [appendConsistencyPath, length_map, consistencySides_self,
        if_neg (by rw [isEmpty_iff_length_eq_zero, length_map]; omega), if_pos rfl,
        treeHash_eq_digest]
      cases complete <;> simp
    · rw [consistencySides_self, length_nil, length_nil]
    · rw [consistencySides_self, take_length]
      rfl
    · rw [consistencySides_self]
      rfl
  | left m n k hk hm hle hlt ih =>
    subst hn
    have htake : (leaves.take k).length = k := by rw [length_take]; omega
    obtain ⟨seed, siblings, hpath, hleng, hold, hnew⟩ := ih htake
    rw [htake] at hleng hold hnew
    refine ⟨seed, (merkleTree (leaves.drop k)).digest hash :: siblings, fun complete => ?_, ?_, ?_,
      ?_⟩
    · have hrec := hpath complete
      rw [htake, map_take] at hrec
      rw [appendConsistencyPath, length_map,
        if_neg (by rw [isEmpty_iff_length_eq_zero, length_map]; omega),
        if_neg (by omega), ← hk, consistencySides_left hk hm hle hlt]
      simp only [hle, if_true, hrec, bind, Except.bind, pure, Except.pure, ← map_drop,
        treeHash_eq_digest, reverse_cons, append_assoc, mem_cons, reduceCtorEq,
        false_or]
    · rw [consistencySides_left hk hm hle hlt, length_cons, length_cons, hleng]
    · rw [take_take, Nat.min_eq_left hle] at hold
      rw [consistencySides_left hk hm hle hlt]
      exact hold
    · have htree := merkleTree_of_one_lt hk (by omega)
      rw [consistencySides_left hk hm hle hlt, htree, LeafTree.digest, ← hnew]
      rfl
  | right m n k hk hpos hlt h ih =>
    subst hn
    have hdrop : (leaves.drop k).length = leaves.length - k := length_drop
    obtain ⟨seed, siblings, hpath, hleng, hold, hnew⟩ := ih hdrop
    rw [hdrop] at hleng hold hnew
    refine ⟨seed, (merkleTree (leaves.take k)).digest hash :: siblings, fun complete => ?_, ?_, ?_,
      ?_⟩
    · have hrec := hpath false
      rw [hdrop, map_drop] at hrec
      rw [appendConsistencyPath, length_map,
        if_neg (by rw [isEmpty_iff_length_eq_zero, length_map]; omega),
        if_neg (by omega), ← hk, consistencySides_right hk hpos hlt h]
      have hnot : ¬ m ≤ k := by omega
      simp only [hnot, if_false, hrec, bind, Except.bind, pure, Except.pure, ← map_take,
        treeHash_eq_digest, reverse_cons, append_assoc, Bool.false_eq_true, false_and,
        mem_cons, true_or, not_true_eq_false, and_false]
    · rw [consistencySides_right hk hpos hlt h, length_cons, length_cons, hleng]
    · rw [merkleTree_take hk hlt h, LeafTree.digest, ← hold, consistencySides_right hk hpos hlt h]
      rfl
    · have htree := merkleTree_of_one_lt hk (by omega)
      rw [consistencySides_right hk hpos hlt h, htree, LeafTree.digest, ← hnew]
      rfl

lemma length_consistencySides_le (h : n ≤ 2 ^ k) : (consistencySides m n).length ≤ k := by
  induction k generalizing m n with
  | zero =>
    rw [consistencySides, if_neg (by omega)]
    exact Nat.le_refl 0
  | succ k ih =>
    rw [consistencySides]
    split
    · rename_i hn
      have hhalf := largestPowerOfTwoLessThan_le hn.2 h
      have htwic := le_two_mul_largestPowerOfTwoLessThan (n := n)
      dsimp only
      split
      · exact Nat.succ_le_succ (ih hhalf)
      · exact Nat.succ_le_succ (ih (by omega))
    · exact Nat.zero_le _

lemma consistencyPathLength_eq (hm : 0 < m) (h : m ≤ n)
    (hboun : (consistencySides m n).length + 1 ≤ MAX_MERKLE_PROOF_HASHES) (complete : Bool) :
    consistencyPathLength m n complete = .ok ((if complete ∧ .right ∉ consistencySides m n then 0
      else 1) + (consistencySides m n).length) := by
  induction m, n, hm, h using consistency_induction generalizing complete with
  | done n hpos =>
    rw [consistencyPathLength, if_neg (by omega), if_pos rfl, consistencySides_self]
    cases complete <;> simp
  | left m n k hk hm hle hlt ih =>
    rw [consistencySides_left hk hm hle hlt, length_cons] at hboun
    rw [consistencyPathLength, if_neg (by omega), if_neg (by omega), ← hk,
      consistencySides_left hk hm hle hlt]
    have hone : (if complete ∧ .right ∉ consistencySides m k then 0 else 1) ≤ 1 := by
      split <;> omega
    simp only [hle, if_true, ih (by omega), bind, Except.bind, pure, Except.pure, reject,
      mem_cons, reduceCtorEq, false_or, length_cons]
    rw [if_neg (by omega)]
    rfl
  | right m n k hk hpos hlt h ih =>
    rw [consistencySides_right hk hpos hlt h, length_cons] at hboun
    rw [consistencyPathLength, if_neg (by omega), if_neg (by omega), ← hk,
      consistencySides_right hk hpos hlt h]
    have hnot : ¬ m ≤ k := by omega
    simp only [hnot, if_false, ih (by omega), bind, Except.bind, pure, Except.pure, reject,
      length_cons, Bool.false_eq_true, false_and, mem_cons, true_or, not_true_eq_false,
      and_false]
    rw [if_neg (by omega)]
    rfl

end

/-! ## Soundness -/

section
variable {Λ : Type} {hash : Preimage Λ Digest → Digest}
variable {leaves others : List Λ}

lemma eq_of_digest_merkleTree
    (h : (merkleTree leaves).digest hash = (merkleTree others).digest hash) (hinj : Set.InjOn hash
      ((merkleTree leaves).preimages hash ∪ (merkleTree others).preimages hash)) :
    leaves = others := by
  rw [← leaves_merkleTree leaves, eq_of_digest h hinj, leaves_merkleTree]

def climbedBoth (hash : Preimage Λ Digest → Digest) (leaves others : List Λ) (seed : Digest)
    (steps : List (Side × Digest)) : Set (Preimage Λ Digest) :=
  (merkleTree leaves).preimages hash ∪ (merkleTree others).preimages hash ∪
    (climbed hash seed (rightSteps steps) ∪ climbed hash seed steps)

variable {siblings : List Digest}

/-- The climb over the right sides ends at the tree of the first leaves, and hashes nothing new. -/
lemma climb_take {others : List Λ} {m : Nat} {seed : Digest}
    (hpos : 0 < m) (hle : m ≤ others.length)
    (hleng : siblings.length = (consistencySides m others.length).length)
    (hnew : climb hash seed ((consistencySides m others.length).zip siblings) =
      (merkleTree others).digest hash)
    (hinj : Set.InjOn hash ((merkleTree others).preimages hash ∪
      climbed hash seed ((consistencySides m others.length).zip siblings))) :
    climb hash seed (rightSteps ((consistencySides m others.length).zip siblings)) =
      (merkleTree (others.take m)).digest hash ∧
    (merkleTree (others.take m)).preimages hash ⊆ (merkleTree others).preimages hash ∪
      climbed hash seed (rightSteps ((consistencySides m others.length).zip siblings)) := by
  -- A right side gives the left parts of both trees one digest; the rest goes on below.
  generalize hn : others.length = n at *
  induction m, n, hpos, hle using consistency_induction generalizing others siblings with
  | done n hpos =>
    subst hn
    rw [consistencySides_self] at hnew ⊢
    rw [take_length]
    exact ⟨hnew, Set.subset_union_left⟩
  | left m n k hk hm hle hlt ih =>
    subst hn
    rw [consistencySides_left hk hm hle hlt] at hleng hnew hinj ⊢
    have htree := merkleTree_of_one_lt hk (by omega)
    cases siblings with
    | nil => cases hleng
    | cons sibling siblings =>
      rw [htree] at hnew hinj ⊢
      obtain ⟨hbel, -⟩ := node_of_digest hnew hinj (.inr (Set.mem_insert _ _))
        fun q hq => .inl hq
      have htake : (others.take k).length = k := by rw [length_take]; omega
      have hrest := ih htake (Nat.succ.inj hleng) hbel
        (hinj.mono (Set.union_subset_union
          (fun q hq => Set.mem_insert_of_mem _ (.inl hq)) (Set.subset_insert _ _)))
      rw [take_take, Nat.min_eq_left hle] at hrest
      exact ⟨hrest.1, hrest.2.trans (Set.union_subset_union_left _
        fun q hq => Set.mem_insert_of_mem _ (.inl hq))⟩
  | right m n k hk hpos hlt h ih =>
    subst hn
    rw [consistencySides_right hk hpos hlt h] at hleng hnew hinj ⊢
    have htree := merkleTree_of_one_lt hk (by omega)
    cases siblings with
    | nil => cases hleng
    | cons sibling siblings =>
      rw [htree] at hnew hinj ⊢
      obtain ⟨hsib, hbel⟩ := node_of_digest hnew hinj (.inr (Set.mem_insert _ _))
        fun q hq => .inl hq
      obtain ⟨hrest, hsub⟩ := ih length_drop (Nat.succ.inj hleng) hbel
        (hinj.mono (Set.union_subset_union
          (fun q hq => Set.mem_insert_of_mem _ (.inr hq)) (Set.subset_insert _ _)))
      rw [merkleTree_take hk hlt h, LeafTree.digest, LeafTree.preimages, ← hsib, ← hrest]
      refine ⟨rfl, Set.insert_subset (.inr (Set.mem_insert _ _)) (Set.union_subset ?_ ?_)⟩
      · exact fun q hq => .inl (Set.mem_insert_of_mem _ (.inl hq))
      · exact hsub.trans (Set.union_subset_union
          (fun q hq => Set.mem_insert_of_mem _ (.inr hq)) (Set.subset_insert _ _))

namespace MerkleConsistencyProof

/-- The seed of a proof with its siblings from the root down. -/
def seedAndSiblings (proof : MerkleConsistencyProof) (oldRoot : Digest) : Digest × List Digest :=
  if .right ∈ consistencySides proof.oldSize proof.newSize then
    (proof.auditPath.headD oldRoot, proof.auditPath.tail.reverse)
  else (oldRoot, proof.auditPath.reverse)

/-- Everything that is hashed for the roots of two logs and for checking a proof between them. -/
def hashedFor (hash : Preimage Λ Digest → Digest) (leaves others : List Λ)
    (proof : MerkleConsistencyProof) : Set (Preimage Λ Digest) :=
  let start := proof.seedAndSiblings (treeHash hash (leaves.map fun a => hash (.leaf a)))
  climbedBoth hash leaves others start.1
    ((consistencySides proof.oldSize proof.newSize).zip start.2)

lemma Climbs.seedAndSiblings_eq {proof : MerkleConsistencyProof} {oldRoot newRoot seed : Digest}
    {siblings : List Digest} (h : proof.Climbs hash oldRoot newRoot seed siblings) :
    proof.seedAndSiblings oldRoot = (seed, siblings) := by
  have hpath := h.path
  unfold seedAndSiblings
  split
  · rename_i hrig
    rw [if_pos hrig] at hpath
    rw [hpath, headD_cons, tail_cons, reverse_reverse]
  · rename_i hrig
    rw [if_neg hrig] at hpath
    rw [hpath.1, hpath.2, reverse_reverse]

def checked (hash : Preimage Λ Digest → Digest) (proof : MerkleConsistencyProof)
    (oldRoot : Digest) : Set (Preimage Λ Digest) :=
  climbed hash (proof.seedAndSiblings oldRoot).1
    ((consistencySides proof.oldSize proof.newSize).zip (proof.seedAndSiblings oldRoot).2)

end MerkleConsistencyProof

variable {proof : MerkleConsistencyProof}

/-- The old root is the root of the first leaves, whose tree has no preimages of its own. -/
lemma oldRoot_of_verify {others : List Λ} {oldRoot : Digest} (hnew : proof.newSize = others.length)
    (hinj : Set.InjOn hash ((merkleTree others).preimages hash ∪ proof.checked hash oldRoot))
    (h : proof.verify hash oldRoot (treeHash hash (others.map fun a => hash (.leaf a))) = .ok ()) :
    oldRoot = treeHash hash ((others.take proof.oldSize).map fun a => hash (.leaf a)) ∧
      (0 < proof.oldSize → (merkleTree (others.take proof.oldSize)).preimages hash ⊆
        (merkleTree others).preimages hash ∪ climbed hash (proof.seedAndSiblings oldRoot).1
          (rightSteps ((consistencySides proof.oldSize proof.newSize).zip
            (proof.seedAndSiblings oldRoot).2))) := by
  rcases Nat.eq_zero_or_pos proof.oldSize with hzero | hpos
  · rw [verify, if_pos hzero, reject_ok, not_or, not_not] at h
    refine ⟨?_, fun hpos => by omega⟩
    rw [hzero, take_zero, map_nil, treeHash]
    exact h.1
  rcases Nat.eq_or_lt_of_le proof.ordered with hsame | hlt
  · rw [verify, if_neg (by omega), if_pos hsame, reject_ok, not_not] at h
    rw [hsame, hnew, take_length]
    exact ⟨h.2, fun _ => Set.subset_union_left⟩
  · obtain ⟨seed, siblings, hclimbs⟩ := (verify_ok hpos hlt).mp h
    rw [checked, hclimbs.seedAndSiblings_eq, hnew] at hinj
    rw [hclimbs.seedAndSiblings_eq, hnew]
    have hle := hnew ▸ hlt.le
    obtain ⟨-, hleng, hold, hclim⟩ := hclimbs
    rw [hnew] at hleng hold hclim
    rw [treeHash_eq_digest] at hclim
    obtain ⟨htake, hsub⟩ := climb_take hpos hle hleng hclim hinj
    rw [treeHash_eq_digest, ← htake, hold]
    exact ⟨rfl, fun _ => hsub⟩

lemma isPrefix_of_verify
    (hold : proof.oldSize = leaves.length) (hnew : proof.newSize = others.length)
    (hinj : Set.InjOn hash (proof.hashedFor hash leaves others))
    (h : proof.verify hash (treeHash hash (leaves.map fun a => hash (.leaf a)))
      (treeHash hash (others.map fun a => hash (.leaf a))) = .ok ()) : leaves <+: others := by
  rcases Nat.eq_zero_or_pos leaves.length with hzero | hpos
  · rw [length_eq_zero_iff.mp hzero]
    exact nil_prefix
  obtain ⟨hroot, hsub⟩ := oldRoot_of_verify hnew (hinj.mono
    (Set.union_subset_union Set.subset_union_right Set.subset_union_right)) h
  rw [treeHash_eq_digest, treeHash_eq_digest] at hroot
  rw [eq_of_digest_merkleTree hroot (hinj.mono (Set.union_subset (fun q hq => .inl (.inl hq))
    ((hsub (hold ▸ hpos)).trans
      (Set.union_subset_union Set.subset_union_right Set.subset_union_left))))]
  exact take_prefix _ _

end

/-! ## Logs -/

section
variable {Λ : Type} {hash : Preimage Λ Digest → Digest} {m n : Nat}

lemma MerkleConsistencyProof.new_eq {path : List Digest}
    (hboun : path.length ≤ MAX_MERKLE_PROOF_HASHES) (h : m ≤ n)
    (hshap : consistencyShape m n = .ok path.length) :
    new m n path = .ok ⟨m, n, path, hboun, h, hshap⟩ := by
  rw [new, dif_pos hboun, dif_pos h, dif_pos hshap]

lemma AppendOnlyMerkleLog.fromLeafHashes_ok {hashes : List Digest} {log : AppendOnlyMerkleLog}
    (h : fromLeafHashes hashes = .ok log) : log.leafHashes = hashes := by
  unfold fromLeafHashes at h
  split at h
  · rw [← Except.ok.inj h]
  · cases h

lemma consistencyShape_eq (hm : 0 < m) (h : m < n) (hboun : n ≤ MAX_MERKLE_LOG_LEAVES) :
    consistencyShape m n = .ok ((if .right ∉ consistencySides m n then 0 else 1) +
      (consistencySides m n).length) := by
  have hsides : (consistencySides m n).length ≤ 20 := length_consistencySides_le hboun
  have hmax : MAX_MERKLE_PROOF_HASHES = 64 := rfl
  rw [consistencyShape, if_neg (by omega), consistencyPathLength_eq hm h.le (by omega)]
  simp

variable {proof : MerkleConsistencyProof} {leaves others : List Λ}

lemma verify_empty_path (h : leaves <+: others)
    (htriv : leaves.length = 0 ∨ leaves.length = others.length)
    (hold : proof.oldSize = leaves.length) (hnew : proof.newSize = others.length)
    (hpath : proof.auditPath = []) :
    proof.verify hash (treeHash hash (leaves.map fun a => hash (.leaf a)))
      (treeHash hash (others.map fun a => hash (.leaf a))) = .ok () := by
  unfold verify
  split
  · rename_i hzero
    obtain rfl := length_eq_zero_iff.mp (hold.symm.trans hzero)
    refine reject_ok.mpr ?_
    rintro (hroot | hne | ⟨hemp, hroot⟩)
    · exact hroot (by rw [map_nil, treeHash])
    · exact hne hpath
    · rw [length_eq_zero_iff.mp (hnew.symm.trans hemp), map_nil, treeHash] at hroot
      exact hroot rfl
  · rename_i hpos
    have heq := h.eq_of_length (htriv.resolve_left (hold ▸ hpos))
    rw [if_pos (by rw [hold, hnew, heq])]
    exact reject_ok.mpr (not_not.mpr ⟨hpath, by rw [heq]⟩)

lemma Proves.climbs {seed : Digest} {siblings : List Digest}
    (hprov : Proves hash others leaves.length seed siblings) (h : leaves <+: others)
    (hold : proof.oldSize = leaves.length) (hnew : proof.newSize = others.length)
    (hpath : proof.auditPath = (if .right ∉ consistencySides leaves.length others.length then []
      else [seed]) ++ siblings.reverse) :
    proof.Climbs hash (treeHash hash (leaves.map fun a => hash (.leaf a)))
      (treeHash hash (others.map fun a => hash (.leaf a))) seed siblings := by
  have hclim := hprov.old
  rw [← prefix_iff_eq_take.mp h] at hclim
  refine ⟨?_, ?_, ?_, ?_⟩
  · rw [hold, hnew, hpath]
    split
    · rfl
    · rename_i hrig
      rw [rightSteps_eq_nil hrig] at hclim
      rw [treeHash_eq_digest]
      exact ⟨hclim, rfl⟩
  · rw [hold, hnew, hprov.length]
  · rw [hold, hnew, hclim, treeHash_eq_digest]
  · rw [hold, hnew, hprov.new, treeHash_eq_digest]

namespace AppendOnlyMerkleLog

lemma verify_consistencyProof {leaves others : List Λ} {log : AppendOnlyMerkleLog}
    (hlog : log.leafHashes = others.map fun a => hash (.leaf a)) (h : leaves <+: others) :
    ∃ proof, log.consistencyProof hash leaves.length = .ok proof ∧
      proof.verify hash (treeHash hash (leaves.map fun a => hash (.leaf a))) (log.root hash) =
        .ok () := by
  have hsize : log.treeSize = others.length := by rw [treeSize, hlog, length_map]
  have hboun : others.length ≤ MAX_MERKLE_LOG_LEAVES := hsize ▸ log.bounded
  have hle := h.length_le
  rw [consistencyProof, root, hlog, hsize]
  simp only [bind_ok, reject_ok, not_lt]
  by_cases htriv : leaves.length = 0 ∨ leaves.length = others.length
  · have hshap : consistencyShape leaves.length others.length = .ok ([] : List Digest).length := by
      rw [consistencyShape, if_pos htriv]
      rfl
    refine ⟨⟨leaves.length, others.length, [], Nat.zero_le _, hle, hshap⟩, ⟨(), hle, ?_⟩,
      verify_empty_path h htriv rfl rfl rfl⟩
    rw [if_pos htriv]
    exact new_eq _ _ _
  · have hpos : 0 < leaves.length := by omega
    have hlt : leaves.length < others.length := by omega
    obtain ⟨seed, siblings, hprov⟩ := exists_proves hash hpos hle
    have hpath := hprov.path true
    simp only [true_and] at hpath
    have hshap := consistencyShape_eq hpos hlt hboun
    have hcoun : ((if .right ∉ consistencySides leaves.length others.length then []
        else [seed]) ++ siblings.reverse).length =
          (if .right ∉ consistencySides leaves.length others.length then 0 else 1) +
            (consistencySides leaves.length others.length).length := by
      rw [length_append, length_reverse, hprov.length]
      split <;> rfl
    have hmax : ((if .right ∉ consistencySides leaves.length others.length then []
        else [seed]) ++ siblings.reverse).length ≤ MAX_MERKLE_PROOF_HASHES := by
      have hsides : (consistencySides leaves.length others.length).length ≤ 20 :=
        length_consistencySides_le hboun
      have hcon : MAX_MERKLE_PROOF_HASHES = 64 := rfl
      rw [hcoun]
      split <;> omega
    rw [← hcoun] at hshap
    refine ⟨⟨leaves.length, others.length, _, hmax, hle, hshap⟩, ⟨(), hle, ?_⟩,
      (verify_ok hpos hlt).mpr
        ⟨seed, siblings, hprov.climbs h rfl rfl rfl⟩⟩
    rw [if_neg htriv]
    exact bind_ok.mpr ⟨_, hpath, new_eq _ _ _⟩

/-- A log proves every prefix of it to be one, by proofs that verify against both
roots. Whatever verifies between the roots of two logs, with their sizes, shows that the one is a
prefix of the other, unless two of the hashed preimages collide. -/
theorem consistency_sound_complete (hash : Preimage Λ Digest → Digest) (leaves others : List Λ)
    (old log : AppendOnlyMerkleLog)
    (hold : fromLeafHashes (leaves.map fun a => hash (.leaf a)) = .ok old)
    (hlog : fromLeafHashes (others.map fun a => hash (.leaf a)) = .ok log) :
    (leaves <+: others → ∃ proof, log.consistencyProof hash old.treeSize = .ok proof ∧
      proof.verify hash (old.root hash) (log.root hash) = .ok ()) ∧
    ∀ proof : MerkleConsistencyProof, proof.oldSize = old.treeSize →
      proof.newSize = log.treeSize → Set.InjOn hash (proof.hashedFor hash leaves others) →
      proof.verify hash (old.root hash) (log.root hash) = .ok () → leaves <+: others := by
  have hsize : old.treeSize = leaves.length := by
    rw [treeSize, fromLeafHashes_ok hold, length_map]
  have hsize' : log.treeSize = others.length := by
    rw [treeSize, fromLeafHashes_ok hlog, length_map]
  rw [hsize, hsize', root, fromLeafHashes_ok hold]
  refine ⟨verify_consistencyProof (fromLeafHashes_ok hlog), fun proof hm hn hinj h => ?_⟩
  rw [root, fromLeafHashes_ok hlog] at h
  exact isPrefix_of_verify hm hn hinj h

end AppendOnlyMerkleLog
end

lemma consistencySides_one_two : consistencySides 1 2 = [.left] := by
  have hsplit : 1 = largestPowerOfTwoLessThan 2 := by decide
  rw [consistencySides_left hsplit (by decide) (by decide) (by decide), consistencySides_self]

lemma oneOfTwo_shaped (sibling : Digest) : consistencyShape 1 2 = .ok [sibling].length := by
  rw [consistencyShape_eq (by decide) (by decide) (by decide), consistencySides_one_two]
  rfl

def oneOfTwo (sibling : Digest) : MerkleConsistencyProof :=
  ⟨1, 2, [sibling], Nat.le_of_ble_eq_true rfl, Nat.le_succ 1, oneOfTwo_shaped sibling⟩

theorem twoLeafHash_consistency : ∃ old log,
    fromLeafHashes ([false].map fun a => twoLeafHash (.leaf a)) = .ok old ∧
    fromLeafHashes ([false, true].map fun a => twoLeafHash (.leaf a)) = .ok log ∧
    (oneOfTwo (twoLeafHash (.leaf true))).verify twoLeafHash (old.root twoLeafHash)
      (log.root twoLeafHash) = .ok () ∧ [false] <+: [false, true] := by
  have hsides := consistencySides_one_two
  have htree := merkleTree_two false true
  have htree' : merkleTree [false] = .leaf false := by rw [merkleTree]
  have hroot : treeHash twoLeafHash ([false].map fun a => twoLeafHash (.leaf a)) =
      twoLeafHash (.leaf false) := by rw [treeHash_eq_digest, htree', LeafTree.digest]
  have hclimbs : (oneOfTwo (twoLeafHash (.leaf true))).Climbs twoLeafHash
      (treeHash twoLeafHash ([false].map fun a => twoLeafHash (.leaf a)))
      (treeHash twoLeafHash ([false, true].map fun a => twoLeafHash (.leaf a)))
      (twoLeafHash (.leaf false)) [twoLeafHash (.leaf true)] := by
    rw [hroot, treeHash_eq_digest, htree]
    refine ⟨?_, ?_, ?_, ?_⟩
    all_goals rw [oneOfTwo, hsides]
    · exact ⟨rfl, rfl⟩
    all_goals rfl
  have hverify := (verify_ok (by decide) (by decide)).mpr
    ⟨_, _, hclimbs⟩
  have hinj : Set.InjOn twoLeafHash
      ((oneOfTwo (twoLeafHash (.leaf true))).hashedFor twoLeafHash [false] [false, true]) := by
    rw [MerkleConsistencyProof.hashedFor, hclimbs.seedAndSiblings_eq, climbedBoth, htree, htree',
      oneOfTwo, hsides]
    rintro p hp q hq hpq
    simp [LeafTree.preimages, climbed, climb, rightSteps, LeafTree.digest] at hp hq
    rcases hp with rfl | rfl | rfl <;> rcases hq with rfl | rfl | rfl <;>
      first | rfl | (revert hpq; decide)
  exact ⟨_, _, rfl, rfl, hverify, (consistency_sound_complete twoLeafHash [false] [false, true] _ _
    rfl rfl).2 _ rfl rfl hinj hverify⟩

end Krikos.Identity
