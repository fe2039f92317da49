import Krikos.Identity.Toy

/-!
# Identity.Guardian

Recovery by private guardians. A recovery policy commits a Merkle root and the number of the
guardian leaves; an approval reveals a grant, its blinding and its place in the committed set.
-/

namespace Krikos.Identity

open Lib MerkleInclusionProof List Toy
open Lib.HashTree

def GUARDIAN_GRANT_LEAF_TYPE_TAG : Nat := 1

lemma guardianTag_ne_zero : GUARDIAN_GRANT_LEAF_TYPE_TAG ≠ 0 := Nat.one_ne_zero

def GuardianGrantOpening.leaf (opening : GuardianGrantOpening) : GuardianLeaf where
  protectedAccountId := opening.grant.protectedAccountId
  guardianAccountId := opening.grant.guardianAccountId
  guardianSigningKey := opening.grant.guardianSigningKey
  weight := opening.grant.weight
  validFromEpoch := opening.grant.validFromEpoch
  expiresAt := opening.grant.expiresAt
  extensions := opening.grant.extensions
  blinding := opening.blinding

/-- The loops over the approvals and over all pairs of them each have one error. -/
def GuardianApprovalSet.fromSorted (approvals : List SignedGuardianApproval) :
    Except IdentityError GuardianApprovalSet :=
  match approvals with
  | [] => .error (.emptyCollection "guardian recovery approvals")
  | first :: rest =>
    if hlen : (first :: rest).length ≤ MAX_RECOVERY_GUARDIANS then
      match hsorted : validateStrictlySorted (fun approval => approval.body.guardianGrantId)
          "guardian recovery approvals" (first :: rest) with
      | .error e => .error e
      | .ok () =>
        if hsubject : ∀ approval ∈ rest, approval.SameSubject first then
          if hseparate : (first :: rest).Pairwise SignedGuardianApproval.Separate then
            .ok ⟨first, rest, hlen, sortedBy_of_validate hsorted, hsubject, hseparate⟩
          else .error (.duplicateElement "guardian authority")
        else .error (.invalidRelationship "guardian approval set subject")
    else .error (.limitExceeded "guardian recovery approvals" (first :: rest).length
      MAX_RECOVERY_GUARDIANS)

structure VerifiedGuardianAuthority where
  context : GuardianAuthorityContext
  guardianSetRoot : Digest
  approvalCount : Nat
  totalWeight : Nat
  deriving DecidableEq

section
variable (c : Primitives)

def blindedMerkleLeaf (leaf : GuardianLeaf) : MerkleSetLeaf :=
  let leafId := c.guardianLeafId leaf
  ⟨⟨GUARDIAN_GRANT_LEAF_TYPE_TAG, leafId, guardianTag_ne_zero⟩, c.guardianLeafValue leafId⟩

/-- The body of the loop of `verify_guardian_authority` for one approval. -/
def verifyGuardianApproval (threshold : GuardianThreshold) (context : GuardianAuthorityContext)
    (approval : SignedGuardianApproval) : Except IdentityError Unit := do
  let body := approval.body
  let opening := approval.opening
  let grant := opening.grant
  reject (body.protectedAccountId ≠ context.protectedAccountId ∨
    body.recoveryId ≠ context.recoveryId ∨ body.decision ≠ context.decision ∨
    body.accountEpoch ≠ context.accountEpoch ∨
    body.guardianGrantId ≠ opening.guardianGrantId ∨
    grant.protectedAccountId ≠ context.protectedAccountId ∨
    grant.recoveryPolicyId ≠ context.recoveryPolicyId)
    (.invalidRelationship "guardian approval projected pre-state")
  reject (body.approvedAt > context.authorityTime ∨ grant.validFromEpoch > context.accountEpoch ∨
    grant.expiresAt.any fun expiry => decide (context.authorityTime ≥ expiry)) .staleEvidence
  let proof ← new opening.leafIndex threshold.guardianCount opening.auditPath
  proof.verify c.merkleHash (blindedMerkleLeaf c opening.leaf) threshold.guardianSetRoot
  reject (c.verifyEd25519 grant.guardianSigningKey.asBytes.val approval.signature
    (c.guardianBytes body) = false) .invalidSignature

/-- The loop with its running weight. -/
def verifiedGuardianWeight (threshold : GuardianThreshold) (context : GuardianAuthorityContext) :
    List SignedGuardianApproval → Nat → Except IdentityError Nat
  | [], total => .ok total
  | approval :: rest, total => do
    verifyGuardianApproval c threshold context approval
    let total ← checkedAdd total approval.opening.grant.weight "verified guardian approval weight"
    verifiedGuardianWeight threshold context rest total

def verifyGuardianAuthority (policy : RecoveryPolicy) (approvals : GuardianApprovalSet)
    (context : GuardianAuthorityContext) : Except IdentityError VerifiedGuardianAuthority := do
  reject (c.recoveryPolicyId policy ≠ context.recoveryPolicyId ∨
    policy.policyVersion ≠ context.recoveryPolicyVersion) .policyVersionMismatch
  match policy.authority with
  | .controllerThreshold _ =>
    .error (.invalidRelationship "guardian approvals for controller recovery policy")
  | .guardianThreshold threshold =>
    let first := approvals.first
    reject (first.body.protectedAccountId ≠ context.protectedAccountId ∨
      first.body.recoveryId ≠ context.recoveryId ∨ first.body.decision ≠ context.decision ∨
      first.opening.grant.recoveryPolicyId ≠ context.recoveryPolicyId)
      (.invalidRelationship "guardian approval authority subject")
    reject (first.opening.guardianSetRoot ≠ threshold.guardianSetRoot ∨
      approvals.asSlice.length > threshold.guardianCount) .invalidProof
    let total ← verifiedGuardianWeight c threshold context approvals.asSlice 0
    reject (total < threshold.requiredWeight) .unsatisfiableThreshold
    reject (total > threshold.totalWeight) .invalidProof
    return ⟨context, threshold.guardianSetRoot, approvals.asSlice.length, total⟩

end

/-! ## Soundness -/

section
variable {c : Primitives} {threshold : GuardianThreshold} {context : GuardianAuthorityContext}
  {guardians : List GuardianLeaf} {approval : SignedGuardianApproval}
  {approvals : List SignedGuardianApproval}

/-- What a guardian has agreed to, in the words of its approval and of its grant. -/
structure Authorizes (context : GuardianAuthorityContext) (approval : SignedGuardianApproval) :
    Prop where
  account : approval.body.protectedAccountId = context.protectedAccountId
  recovery : approval.body.recoveryId = context.recoveryId
  decision : approval.body.decision = context.decision
  epoch : approval.body.accountEpoch = context.accountEpoch
  approved : approval.body.approvedAt ≤ context.authorityTime
  started : approval.opening.grant.validFromEpoch ≤ context.accountEpoch
  unexpired : ∀ expiry, approval.opening.grant.expiresAt = some expiry →
    context.authorityTime < expiry

def GuardianGrantOpening.proof (opening : GuardianGrantOpening) (guardianCount : Nat) :
    MerkleInclusionProof :=
  ⟨opening.leafIndex, guardianCount, opening.auditPath⟩

/-- No two different leaves or nodes that are hashed for the committed list or for checking an
approval collide. -/
structure NoCollision (c : Primitives) (guardians : List GuardianLeaf)
    (approvals : List SignedGuardianApproval) : Prop where
  merkle : ∀ approval ∈ approvals, Set.InjOn c.merkleHash
    (hashedFor c.merkleHash (guardians.map (blindedMerkleLeaf c))
      (approval.opening.proof guardians.length) (blindedMerkleLeaf c approval.opening.leaf))
  leaf : ∀ guardian ∈ guardians, ∀ approval ∈ approvals,
    c.guardianLeafId guardian = c.guardianLeafId approval.opening.leaf →
      guardian = approval.opening.leaf

lemma GuardianApprovalSet.fromSorted_ok {set : GuardianApprovalSet}
    (h : fromSorted approvals = .ok set) :
    set.asSlice = approvals ∧ approvals.Pairwise SignedGuardianApproval.Separate := by
  unfold fromSorted at h
  repeat' split at h
  all_goals cases h
  exact ⟨rfl, by assumption⟩

lemma verifyGuardianApproval_ok (h : verifyGuardianApproval c threshold context approval = .ok ()) :
    Authorizes context approval ∧
      (approval.opening.proof threshold.guardianCount).verify c.merkleHash
        (blindedMerkleLeaf c approval.opening.leaf) threshold.guardianSetRoot = .ok () ∧
      c.verifyEd25519 approval.opening.grant.guardianSigningKey.asBytes.val approval.signature
        (c.guardianBytes approval.body) = true := by
  simp only [verifyGuardianApproval, bind_ok, reject_ok, not_or, not_not, not_lt] at h
  obtain ⟨-, ⟨hacc, hrec, hdec, hepoc, -⟩, -, ⟨happ, hstar, hexp⟩,
    proof, hnew, ⟨⟩, hverify, hsigned⟩ := h
  obtain ⟨rfl, -⟩ := new_ok hnew
  refine ⟨⟨hacc, hrec, hdec, hepoc, happ, hstar, ?_⟩, hverify, ?_⟩
  · intro expiry h
    simpa [h] using hexp
  · simpa using hsigned

lemma verifiedGuardianWeight_ok {total weight : Nat}
    (h : verifiedGuardianWeight c threshold context approvals total = .ok weight) :
    (∀ approval ∈ approvals, verifyGuardianApproval c threshold context approval = .ok ()) ∧
      weight = total + (approvals.map fun approval => approval.opening.grant.weight).sum := by
  induction approvals generalizing total with
  | nil =>
    obtain rfl : total = weight := Except.ok.inj h
    simp
  | cons approval rest ih =>
    simp only [verifiedGuardianWeight, bind_ok] at h
    obtain ⟨⟨⟩, hfir, next, hnext, hrest⟩ := h
    obtain ⟨hall, rfl⟩ := ih hrest
    obtain rfl := checkedAdd_ok hnext
    refine ⟨?_, ?_⟩
    · simpa [hfir] using hall
    · rw [map_cons, sum_cons, Nat.add_assoc]

lemma verifyGuardianAuthority_ok {policy : RecoveryPolicy} {approvals : GuardianApprovalSet}
    {verified : VerifiedGuardianAuthority}
    (hpolicy : policy.authority = .guardianThreshold threshold)
    (h : verifyGuardianAuthority c policy approvals context = .ok verified) :
    verifiedGuardianWeight c threshold context approvals.asSlice 0 = .ok verified.totalWeight ∧
      threshold.requiredWeight ≤ verified.totalWeight := by
  simp only [verifyGuardianAuthority, hpolicy, bind_ok, reject_ok, pure_ok, not_lt] at h
  obtain ⟨-, -, -, -, -, -, total, htotal, -, hrequired, -, -, rfl⟩ := h
  exact ⟨htotal, hrequired⟩

lemma guardian_at_leafIndex (hroot : threshold.guardianSetRoot = treeHash c.merkleHash
      (guardians.map fun guardian => c.merkleHash (.leaf (blindedMerkleLeaf c guardian))))
    (hcount : threshold.guardianCount = guardians.length)
    (hinj : NoCollision c guardians approvals) (hmem : approval ∈ approvals)
    (h : (approval.opening.proof threshold.guardianCount).verify c.merkleHash
      (blindedMerkleLeaf c approval.opening.leaf) threshold.guardianSetRoot = .ok ()) :
    guardians[approval.opening.leafIndex]? = some approval.opening.leaf := by
  have hi := (verify_ok.mp h).1
  have hlen : (guardians.map (blindedMerkleLeaf c)).length = guardians.length := length_map _
  have hlt : approval.opening.leafIndex < (guardians.map (blindedMerkleLeaf c)).length := by
    rw [hlen, ← hcount]
    exact hi
  rw [hroot, hcount, show (fun guardian => c.merkleHash (.leaf (blindedMerkleLeaf c guardian))) =
    (fun leaf => c.merkleHash (.leaf leaf)) ∘ blindedMerkleLeaf c from rfl, ← map_map] at h
  have hget := get?_of_verify (hinj.merkle approval hmem) h
  have hat := get?_merkleTree _ _ hlt
  rw [hlen] at hat
  have hleaf : (guardians.map (blindedMerkleLeaf c))[approval.opening.leafIndex]? =
      some (blindedMerkleLeaf c approval.opening.leaf) := hat.symm.trans hget
  rw [getElem?_map, Option.map_eq_some_iff] at hleaf
  obtain ⟨guardian, hguardian, heq⟩ := hleaf
  have hid : c.guardianLeafId guardian = c.guardianLeafId approval.opening.leaf :=
    congrArg (fun leaf => leaf.key.id) heq
  rw [hguardian, hinj.leaf guardian (mem_of_getElem? hguardian) approval hmem hid]

/-- Whatever guardian authority is verified against a committed list comes from
pairwise different leaves of that list, each of which signed the decision in its own words; the
counted weight is theirs and reaches the required weight. -/
theorem GuardianApprovalSet.authority_sound (c : Primitives) (Signed : Bytes → Bytes → Prop)
    (hsigned : ∀ key signature message,
      c.verifyEd25519 key signature message = true → Signed key message)
    (guardians : List GuardianLeaf) (policy : RecoveryPolicy) (threshold : GuardianThreshold)
    (signed : List SignedGuardianApproval) (approvals : GuardianApprovalSet)
    (context : GuardianAuthorityContext) (verified : VerifiedGuardianAuthority)
    (hpolicy : policy.authority = .guardianThreshold threshold)
    (hroot : threshold.guardianSetRoot = treeHash c.merkleHash
      (guardians.map fun guardian => c.merkleHash (.leaf (blindedMerkleLeaf c guardian))))
    (hcount : threshold.guardianCount = guardians.length)
    (hinj : NoCollision c guardians signed)
    (hset : fromSorted signed = .ok approvals)
    (h : verifyGuardianAuthority c policy approvals context = .ok verified) :
    (signed.map fun approval => approval.opening.leafIndex).Nodup ∧
    (signed.map fun approval => approval.opening.leaf).Nodup ∧
    (∀ approval ∈ signed,
      guardians[approval.opening.leafIndex]? = some approval.opening.leaf ∧
      Authorizes context approval ∧
      Signed approval.opening.leaf.guardianSigningKey.asBytes.val (c.guardianBytes approval.body)) ∧
    verified.totalWeight = (signed.map fun approval => approval.opening.leaf.weight).sum ∧
    threshold.requiredWeight ≤ verified.totalWeight := by
  obtain ⟨rfl, hseparate⟩ := fromSorted_ok hset
  obtain ⟨hweight, hrequired⟩ := verifyGuardianAuthority_ok hpolicy h
  obtain ⟨hall, htotal⟩ := verifiedGuardianWeight_ok hweight
  refine ⟨?_, ?_, ?_, ?_, hrequired⟩
  · exact pairwise_map.mpr (hseparate.imp fun hsep => hsep.2.2)
  · refine pairwise_map.mpr (hseparate.imp fun hsep heq => hsep.1 ?_)
    exact congrArg GuardianLeaf.guardianAccountId heq
  · intro approval hmem
    obtain ⟨hauthorizes, hverify, hsignature⟩ := verifyGuardianApproval_ok (hall approval hmem)
    exact ⟨guardian_at_leafIndex hroot hcount hinj hmem hverify, hauthorizes,
      hsigned _ _ _ hsignature⟩
  · rw [htotal, Nat.zero_add]
    rfl

end

/-! Two guardians, of weight one each, begin a recovery. -/

def guardian (n : Nat) : GuardianLeaf :=
  ⟨⟨number 1⟩, ⟨number n⟩, ⟨number n⟩, 1, 0, none, [], FixedBytes.zero 32⟩

def bothThreshold : GuardianThreshold := ⟨number 3, 2, 2, 2⟩

def guardianApproval (n leafIndex sibling : Nat) : SignedGuardianApproval where
  body := ⟨⟨number 1⟩, ⟨number 9⟩, .begin, ⟨number n⟩, 3, 5, []⟩
  opening := ⟨⟨number n⟩, ⟨⟨number 1⟩, ⟨number 0⟩, ⟨number n⟩, ⟨number n⟩, 1, 0, none, []⟩,
    FixedBytes.zero 32, number 3, leafIndex, [number sibling], []⟩
  signature := (number 9).val ++ (number n).val

def bothApprovals : List SignedGuardianApproval :=
  [guardianApproval 7 0 8, guardianApproval 8 1 7]

def recoveryContext : GuardianAuthorityContext :=
  ⟨⟨number 1⟩, ⟨number 9⟩, ⟨number 0⟩, 0, 3, .begin, 6⟩

lemma noCollision_bothApprovals :
    NoCollision primitives [guardian 7, guardian 8] bothApprovals := by
  have hsplit : largestPowerOfTwoLessThan 2 = 1 := by decide
  have hleft : merkleAddress 0 2 = [.left] := by
    rw [merkleAddress_left (by decide) (by decide), hsplit, merkleAddress_one]
  have hright : merkleAddress 1 2 = [.right] := by
    rw [merkleAddress_right (by decide) (by decide), hsplit, merkleAddress_one]
  constructor
  · intro approval hmem p hp q hq hpq
    simp only [bothApprovals, mem_cons, not_mem_nil, or_false] at hmem
    rcases hmem with rfl | rfl
    all_goals
      simp only [hashedFor, map_cons, map_nil, merkleTree_two, steps, GuardianGrantOpening.proof,
        guardianApproval, length_cons, length_nil, hleft, hright] at hp hq
      simp [LeafTree.preimages, climbed, climb, LeafTree.digest] at hp hq
      rcases hp with rfl | rfl | rfl | rfl | rfl <;> rcases hq with rfl | rfl | rfl | rfl | rfl <;>
        first | rfl | exact absurd hpq (by decide +kernel)
  · intro guardian hguardian approval hmem
    revert guardian approval
    decide +kernel

theorem bothGuardians_authority :
    (GuardianApprovalSet.fromSorted bothApprovals >>= fun approvals =>
      verifyGuardianAuthority primitives ⟨0, .guardianThreshold bothThreshold, 1, 2, []⟩ approvals
        recoveryContext) = .ok ⟨recoveryContext, number 3, 2, 2⟩ ∧
    ∀ approval ∈ bothApprovals,
      [guardian 7, guardian 8][approval.opening.leafIndex]? = some approval.opening.leaf := by
  have hroot : bothThreshold.guardianSetRoot = treeHash primitives.merkleHash
      ([guardian 7, guardian 8].map fun guardian =>
        primitives.merkleHash (.leaf (blindedMerkleLeaf primitives guardian))) := by
    decide +kernel
  refine ⟨?verify, fun approval hmem => ?_⟩
  · decide +kernel
  obtain ⟨approvals, hset, hverify⟩ := bind_ok.mp ?verify
  exact ((GuardianApprovalSet.authority_sound primitives
    (fun key message => ∃ signature, primitives.verifyEd25519 key signature message)
    (fun _ signature _ h => ⟨signature, h⟩) [guardian 7, guardian 8] _ bothThreshold _ approvals
    recoveryContext _ rfl hroot rfl noCollision_bothApprovals hset hverify).2.2.1 approval hmem).1

end Krikos.Identity
