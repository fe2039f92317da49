import Krikos.Identity.Merkle

/-!
# Identity.Consistency

Consistency proofs of the append-only log: that one tree is a prefix of another.

The prover recurses on the splits of the larger tree and the verifier shifts the two sizes bit by
bit. Both take the same sides, from the root down and from the bottom up. A right side is a step of
both trees with one sibling, a left side extends the larger tree only.
-/

namespace Krikos.Identity

open Lib List
open Lib.HashTree

/-! ## The code -/

section
variable {Λ : Type} (hash : Preimage Λ Digest → Digest)

def appendConsistencyPath (oldSize : Nat) (hashes : List Digest) (completeSubtree : Bool) :
    Except IdentityError (List Digest) :=
  if oldSize = 0 ∨ oldSize > hashes.length ∨ hashes.isEmpty then .error .invalidProof
  else if oldSize = hashes.length then
    .ok (if completeSubtree then [] else [treeHash hash hashes])
  else
    let split := largestPowerOfTwoLessThan hashes.length
    if oldSize ≤ split then do
      let path ← appendConsistencyPath oldSize (hashes.take split) completeSubtree
      return path ++ [treeHash hash (hashes.drop split)]
    else do
      let path ← appendConsistencyPath (oldSize - split) (hashes.drop split) false
      return path ++ [treeHash hash (hashes.take split)]
  termination_by hashes.length
  decreasing_by
    · have := largestPowerOfTwoLessThan_lt (n := hashes.length) (by omega)
      simp only [length_take]
      omega
    · have := largestPowerOfTwoLessThan_pos hashes.length
      simp only [length_drop]
      omega

def consistencyPathLength (oldSize newSize : Nat) (completeSubtree : Bool) :
    Except IdentityError Nat :=
  if oldSize = 0 ∨ oldSize > newSize ∨ newSize = 0 then .error .invalidProof
  else if oldSize = newSize then .ok (if completeSubtree then 0 else 1)
  else
    let split := largestPowerOfTwoLessThan newSize
    if oldSize ≤ split then do
      let nested ← consistencyPathLength oldSize split completeSubtree
      reject (nested + 1 > MAX_MERKLE_PROOF_HASHES) .invalidProof
      return nested + 1
    else do
      let nested ← consistencyPathLength (oldSize - split) (newSize - split) false
      reject (nested + 1 > MAX_MERKLE_PROOF_HASHES) .invalidProof
      return nested + 1
  termination_by newSize
  decreasing_by
    · exact largestPowerOfTwoLessThan_lt (by omega)
    · have := largestPowerOfTwoLessThan_pos newSize
      omega

/-- The path length that the constructor of a proof asks for. -/
def consistencyShape (oldSize newSize : Nat) : Except IdentityError Nat :=
  if oldSize = 0 ∨ oldSize = newSize then .ok 0 else consistencyPathLength oldSize newSize true

/-- A proof of the exact shape for its two sizes, with the path from the bottom up. -/
structure MerkleConsistencyProof where
  oldSize : Nat
  newSize : Nat
  auditPath : List Digest
  bounded : auditPath.length ≤ MAX_MERKLE_PROOF_HASHES
  ordered : oldSize ≤ newSize
  shaped : consistencyShape oldSize newSize = .ok auditPath.length

/-- The loop that shifts both cursors while the old one is odd. -/
def shiftOnes (oldCursor newCursor : Nat) : Nat × Nat :=
  if oldCursor % 2 = 1 then shiftOnes (oldCursor / 2) (newCursor / 2) else (oldCursor, newCursor)
  termination_by oldCursor

/-- The loop that shifts both cursors while the old one is even and not zero. -/
def shiftZeros (oldCursor newCursor : Nat) : Nat × Nat :=
  if oldCursor ≠ 0 ∧ oldCursor % 2 = 0 then shiftZeros (oldCursor / 2) (newCursor / 2)
  else (oldCursor, newCursor)
  termination_by oldCursor

/-- The loop over the audit path: the new cursor and both hashes at its end. -/
def consistencyLoop (oldCursor newCursor : Nat) (oldHash newHash : Digest) :
    List Digest → Except IdentityError (Nat × Digest × Digest)
  | [] => .ok (newCursor, oldHash, newHash)
  | sibling :: rest =>
    if newCursor = 0 then .error .invalidProof
    else if oldCursor % 2 = 1 ∨ oldCursor = newCursor then
      let (oldCursor, newCursor) := shiftZeros oldCursor newCursor
      consistencyLoop (oldCursor / 2) (newCursor / 2) (nodeHash hash sibling oldHash)
        (nodeHash hash sibling newHash) rest
    else
      consistencyLoop (oldCursor / 2) (newCursor / 2) oldHash (nodeHash hash newHash sibling) rest

namespace MerkleConsistencyProof

def new (oldSize newSize : Nat) (auditPath : List Digest) :
    Except IdentityError MerkleConsistencyProof :=
  if bounded : auditPath.length ≤ MAX_MERKLE_PROOF_HASHES then
    if ordered : oldSize ≤ newSize then
      if shaped : consistencyShape oldSize newSize = .ok auditPath.length then
        .ok ⟨oldSize, newSize, auditPath, bounded, ordered, shaped⟩
      else .error .invalidProof
    else .error .invalidProof
  else .error (.limitExceeded "Merkle consistency path" auditPath.length MAX_MERKLE_PROOF_HASHES)

/-- The seed of both hashes: the old root when the old tree is one subtree of the new one. -/
def seed (proof : MerkleConsistencyProof) (oldCursor : Nat) (oldRoot : Digest) :
    Except IdentityError (Digest × List Digest) :=
  if oldCursor = 0 then .ok (oldRoot, proof.auditPath) else nextPathHash proof.auditPath

def verify (proof : MerkleConsistencyProof) (oldRoot newRoot : Digest) :
    Except IdentityError Unit :=
  if proof.oldSize = 0 then
    reject (oldRoot ≠ emptyMerkleRoot hash ∨ proof.auditPath ≠ [] ∨
      (proof.newSize = 0 ∧ newRoot ≠ emptyMerkleRoot hash)) .invalidProof
  else if proof.oldSize = proof.newSize then
    reject (¬ (proof.auditPath = [] ∧ oldRoot = newRoot)) .invalidProof
  else do
    let cursors := shiftOnes (proof.oldSize - 1) (proof.newSize - 1)
    let (seed, path) ← proof.seed cursors.1 oldRoot
    let (newCursor, oldHash, newHash) ←
      consistencyLoop hash cursors.1 cursors.2 seed seed path
    reject (newCursor ≠ 0 ∨ oldHash ≠ oldRoot ∨ newHash ≠ newRoot) .invalidProof

end MerkleConsistencyProof

def AppendOnlyMerkleLog.consistencyProof (log : AppendOnlyMerkleLog) (oldSize : Nat) :
    Except IdentityError MerkleConsistencyProof := do
  reject (oldSize > log.treeSize) .invalidProof
  if oldSize = 0 ∨ oldSize = log.treeSize then MerkleConsistencyProof.new oldSize log.treeSize []
  else
    let auditPath ← appendConsistencyPath hash oldSize log.leafHashes true
    MerkleConsistencyProof.new oldSize log.treeSize auditPath

end

/-! ## The sides of a pair of sizes -/

/-- The sides from the root of the larger tree down to the subtree where the smaller one ends. -/
def consistencySides (oldSize newSize : Nat) : List Side :=
  if oldSize < newSize ∧ 1 < newSize then
    let split := largestPowerOfTwoLessThan newSize
    if oldSize ≤ split then .left :: consistencySides oldSize split
    else .right :: consistencySides (oldSize - split) (newSize - split)
  else []
  termination_by newSize
  decreasing_by
    · exact largestPowerOfTwoLessThan_lt (by omega)
    · have := largestPowerOfTwoLessThan_pos newSize
      omega

lemma consistency_induction {P : ∀ m n : Nat, 0 < m → m ≤ n → Prop}
    (done : ∀ n (hn : 0 < n), P n n hn le_rfl)
    (left : ∀ m n k, k = largestPowerOfTwoLessThan n → ∀ (hm : 0 < m) (hle : m ≤ k) (hlt : k < n),
      P m k hm hle → P m n hm (hle.trans hlt.le))
    (right : ∀ m n k, k = largestPowerOfTwoLessThan n → ∀ (hpos : 0 < k) (hlt : k < m) (h : m < n),
      P (m - k) (n - k) (Nat.sub_pos_of_lt hlt) (Nat.sub_le_sub_right h.le k) →
        P m n (hpos.trans hlt) h.le) (m n : Nat) (hm : 0 < m) (h : m ≤ n) : P m n hm h := by
  induction n using Nat.strong_induction_on generalizing m with
  | _ n ih =>
    by_cases heq : m = n
    · subst heq
      exact done m hm
    · have hlt := largestPowerOfTwoLessThan_lt (n := n) (by omega)
      have hpos := largestPowerOfTwoLessThan_pos n
      by_cases hle : m ≤ largestPowerOfTwoLessThan n
      · exact left m n _ rfl hm hle hlt (ih _ hlt _ hm hle)
      · exact right m n _ rfl hpos (by omega) (by omega) (ih _ (by omega) _ _ _)

lemma consistencySides_self (n : Nat) : consistencySides n n = [] := by
  rw [consistencySides, if_neg (by omega)]

variable {m n k : Nat}

lemma consistencySides_left (hk : k = largestPowerOfTwoLessThan n) (hm : 0 < m)
    (hle : m ≤ k) (hlt : k < n) : consistencySides m n = .left :: consistencySides m k := by
  rw [consistencySides, if_pos (by omega)]
  subst hk
  exact if_pos hle

lemma consistencySides_right (hk : k = largestPowerOfTwoLessThan n) (hpos : 0 < k) (hlt : k < m)
    (h : m < n) : consistencySides m n = .right :: consistencySides (m - k) (n - k) := by
  rw [consistencySides, if_pos (by omega)]
  subst hk
  exact if_neg (by omega)

/-- The sides of a pair of cursors, from the bottom up. -/
def cursorSides (oldCursor newCursor : Nat) : List Side :=
  if newCursor = 0 then []
  else if oldCursor % 2 = 1 ∨ oldCursor = newCursor then
    .right :: cursorSides ((shiftZeros oldCursor newCursor).1 / 2)
      ((shiftZeros oldCursor newCursor).2 / 2)
  else .left :: cursorSides (oldCursor / 2) (newCursor / 2)
  termination_by newCursor
  decreasing_by
    · have : (shiftZeros oldCursor newCursor).2 ≤ newCursor := by
        fun_induction shiftZeros oldCursor newCursor with
        | case1 => omega
        | case2 => exact Nat.le_refl _
      omega
    · omega

variable {old new : Nat}

lemma shiftZeros_even (h : old ≠ 0) (heven : old % 2 = 0) :
    shiftZeros old new = shiftZeros (old / 2) (new / 2) := by
  rw [shiftZeros, if_pos ⟨h, heven⟩]

lemma shiftZeros_odd (hodd : old % 2 = 1) : shiftZeros old new = (old, new) := by
  rw [shiftZeros, if_neg (by omega)]

lemma cursorSides_zero (old : Nat) : cursorSides old 0 = [] := by
  rw [cursorSides, if_pos rfl]

lemma cursorSides_right (hnew : new ≠ 0) (h : old % 2 = 1 ∨ old = new) :
    cursorSides old new = .right :: cursorSides ((shiftZeros old new).1 / 2)
      ((shiftZeros old new).2 / 2) := by
  rw [cursorSides, if_neg hnew, if_pos h]

lemma cursorSides_odd (hnew : new ≠ 0) (h : old % 2 = 1) :
    cursorSides old new = .right :: cursorSides (old / 2) (new / 2) := by
  rw [cursorSides_right hnew (.inl h), shiftZeros_odd h]

lemma cursorSides_left (hnew : new ≠ 0) (heven : old % 2 = 0)
    (hne : old ≠ new) : cursorSides old new = .left :: cursorSides (old / 2) (new / 2) := by
  rw [cursorSides, if_neg hnew, if_neg (by omega)]

variable {t : Nat}

lemma half_ones (t : Nat) : (2 ^ (t + 1) - 1) / 2 = 2 ^ t - 1 := by
  have hpow := pow_succ' 2 t
  omega

lemma half_above (n t : Nat) : (n + 2 ^ (t + 1)) / 2 = n / 2 + 2 ^ t := by
  have hpow := pow_succ' 2 t
  omega

/-- A left split: below the highest bit of the new cursor, where the old one has none. -/
lemma cursorSides_below (hold : old < 2 ^ t) (hlow : 2 ^ t ≤ new) (hhigh : new < 2 ^ (t + 1)) :
    cursorSides old new = cursorSides old (2 ^ t - 1) ++ [.left] := by
  induction t generalizing old new with
  | zero =>
    obtain ⟨rfl, rfl⟩ : old = 0 ∧ new = 1 := by omega
    rw [cursorSides_left (by decide) rfl (by decide), cursorSides_zero, Nat.pow_zero,
      Nat.sub_self, cursorSides_zero]
    rfl
  | succ t ih =>
    have hpow := pow_succ' 2 t
    have hpow' := pow_succ' 2 (t + 1)
    have hpos : 0 < 2 ^ t := Nat.two_pow_pos t
    have hrest : cursorSides (old / 2) (new / 2) = cursorSides (old / 2) (2 ^ t - 1) ++ [.left] :=
      ih (by omega) (by omega) (by omega)
    have hones : 2 ^ (t + 1) - 1 ≠ 0 := by omega
    rcases Nat.mod_two_eq_zero_or_one old with heven | hodd
    · rw [cursorSides_left (by omega) heven (by omega), hrest,
        cursorSides_left hones heven (by omega), half_ones]
      rfl
    · rw [cursorSides_odd (by omega) hodd, hrest, cursorSides_odd hones hodd, half_ones]
      rfl

lemma cursorSides_two_pow (t : Nat) : cursorSides (2 ^ t) (2 ^ t) = [.right] := by
  have hpos : 2 ^ t ≠ 0 := (Nat.two_pow_pos t).ne'
  have hzer : ∀ t, shiftZeros (2 ^ t) (2 ^ t) = (1, 1) := by
    intro t
    induction t with
    | zero => exact shiftZeros_odd rfl
    | succ t ih =>
      have hpow := pow_succ' 2 t
      have hpos : 0 < 2 ^ t := Nat.two_pow_pos t
      rw [shiftZeros_even (by omega) (by omega), hpow, Nat.mul_div_cancel_left _ (by decide), ih]
  rw [cursorSides_right hpos (.inr rfl), hzer t]
  exact congrArg (cons Side.right) (cursorSides_zero 0)

lemma cursorSides_above (hle : old ≤ new) (hlt : new < 2 ^ t) :
    cursorSides (old + 2 ^ t) (new + 2 ^ t) = cursorSides old new ++ [.right] ∧
      (old ≠ 0 → cursorSides ((shiftZeros (old + 2 ^ t) (new + 2 ^ t)).1 / 2)
          ((shiftZeros (old + 2 ^ t) (new + 2 ^ t)).2 / 2) =
        cursorSides ((shiftZeros old new).1 / 2) ((shiftZeros old new).2 / 2) ++ [.right]) := by
  induction t generalizing old new with
  | zero =>
    obtain ⟨rfl, rfl⟩ : old = 0 ∧ new = 0 := by omega
    refine ⟨?_, fun h => absurd rfl h⟩
    rw [Nat.zero_add, cursorSides_two_pow 0, cursorSides_zero]
    rfl
  | succ t ih =>
    have hpow := pow_succ' 2 t
    have hpos : 0 < 2 ^ t := Nat.two_pow_pos t
    have hle' : old / 2 ≤ new / 2 := by omega
    obtain ⟨hhalf, hzer⟩ := ih hle' (by omega)
    -- the second part is used for the first
    refine (fun hshif => ⟨?_, hshif⟩) fun hne => ?_
    · rcases Nat.mod_two_eq_zero_or_one old with heven | hodd
      · rw [shiftZeros_even (by omega) (by omega), half_above, half_above, shiftZeros_even hne heven]
        exact hzer (by omega)
      · rw [shiftZeros_odd (by omega), half_above, half_above, shiftZeros_odd hodd]
        exact hhalf
    · by_cases hnew0 : new = 0
      · obtain rfl : old = 0 := by omega
        rw [hnew0, Nat.zero_add, cursorSides_two_pow, cursorSides_zero]
        rfl
      · by_cases hrig : old % 2 = 1 ∨ old = new
        · rw [cursorSides_right (by omega) (by omega), cursorSides_right hnew0 hrig,
            hshif (by omega)]
          rfl
        · rw [cursorSides_left (by omega) (by omega) (by omega), half_above, half_above, hhalf,
            cursorSides_left hnew0 (by omega) (by omega)]
          rfl

/-! ### After the trailing ones -/

lemma shiftOnes_odd (h : old % 2 = 1) : shiftOnes old new = shiftOnes (old / 2) (new / 2) := by
  rw [shiftOnes, if_pos h]

lemma shiftOnes_even (h : old % 2 = 0) : shiftOnes old new = (old, new) := by
  rw [shiftOnes, if_neg (by omega)]

/-- The sides that the verifier takes for two sizes, less one. -/
def shiftedSides (old new : Nat) : List Side :=
  cursorSides (shiftOnes old new).1 (shiftOnes old new).2

lemma shiftedSides_odd (h : old % 2 = 1) :
    shiftedSides old new = shiftedSides (old / 2) (new / 2) := by
  rw [shiftedSides, shiftOnes_odd h, shiftedSides]

lemma shiftedSides_even (h : old % 2 = 0) : shiftedSides old new = cursorSides old new := by
  rw [shiftedSides, shiftOnes_even h]

lemma shiftedSides_ones (t : Nat) : shiftedSides (2 ^ t - 1) (2 ^ t - 1) = [] := by
  induction t with
  | zero => exact (shiftedSides_even rfl).trans (cursorSides_zero 0)
  | succ t ih =>
    have hpow := pow_succ' 2 t
    have hpos : 0 < 2 ^ t := Nat.two_pow_pos t
    rw [shiftedSides_odd (by omega), half_ones, ih]

lemma shiftedSides_below (hold : old < 2 ^ t) (hlow : 2 ^ t ≤ new) (hhigh : new < 2 ^ (t + 1)) :
    shiftedSides old new = shiftedSides old (2 ^ t - 1) ++ [.left] := by
  induction t generalizing old new with
  | zero =>
    obtain rfl : old = 0 := by omega
    rw [shiftedSides_even rfl, shiftedSides_even rfl]
    exact cursorSides_below hold hlow hhigh
  | succ t ih =>
    rcases Nat.mod_two_eq_zero_or_one old with heven | hodd
    · rw [shiftedSides_even heven, shiftedSides_even heven]
      exact cursorSides_below hold hlow hhigh
    · have hpow := pow_succ' 2 t
      have hpow' := pow_succ' 2 (t + 1)
      rw [shiftedSides_odd hodd, shiftedSides_odd hodd, half_ones]
      exact ih (by omega) (by omega) (by omega)

lemma shiftedSides_above (h : old < new) (hlt : new < 2 ^ t) :
    shiftedSides (old + 2 ^ t) (new + 2 ^ t) = shiftedSides old new ++ [.right] := by
  induction t generalizing old new with
  | zero => omega
  | succ t ih =>
    have hpow := pow_succ' 2 t
    rcases Nat.mod_two_eq_zero_or_one old with heven | hodd
    · rw [shiftedSides_even (by omega), shiftedSides_even heven]
      exact (cursorSides_above h.le hlt).1
    · rw [shiftedSides_odd (by omega), shiftedSides_odd hodd, half_above, half_above]
      exact ih (by omega) (by omega)

lemma shiftedSides_eq (hm : 0 < m) (h : m ≤ n) (hpow : m = n → ∃ t, n = 2 ^ t) :
    shiftedSides (m - 1) (n - 1) = (consistencySides m n).reverse := by
  induction m, n, hm, h using consistency_induction with
  | done n hn =>
    obtain ⟨t, rfl⟩ := hpow rfl
    rw [shiftedSides_ones, consistencySides_self]
    rfl
  | left m n k hk hm hle hlt ih =>
    obtain ⟨t, rfl⟩ : ∃ t, k = 2 ^ t := ⟨_, hk⟩
    have htwic := le_two_mul_largestPowerOfTwoLessThan (n := n)
    have hpow := pow_succ' 2 t
    rw [shiftedSides_below (t := t) (by omega) (by omega) (by omega), ih fun _ => ⟨t, rfl⟩,
      consistencySides_left hk hm hle hlt, reverse_cons]
  | right m n k hk hpos hlt h ih =>
    obtain ⟨t, rfl⟩ : ∃ t, k = 2 ^ t := ⟨_, hk⟩
    have htwic := le_two_mul_largestPowerOfTwoLessThan (n := n)
    have hold : m - 1 = m - 2 ^ t - 1 + 2 ^ t := by omega
    have hnew : n - 1 = n - 2 ^ t - 1 + 2 ^ t := by omega
    rw [hold, hnew, shiftedSides_above (by omega) (by omega), ih (by omega),
      consistencySides_right hk hpos hlt h, reverse_cons]

/-- The old tree is a subtree of the new one exactly when its size is a power of two. -/
lemma right_not_mem_consistencySides (hm : 0 < m) (h : m ≤ n)
    (hpow : m = n → ∃ t, n = 2 ^ t) : .right ∉ consistencySides m n ↔ ∃ t, m = 2 ^ t := by
  induction m, n, hm, h using consistency_induction with
  | done n hn =>
    rw [consistencySides_self]
    exact ⟨fun _ => hpow rfl, fun _ => not_mem_nil⟩
  | left m n k hk hm hle hlt ih =>
    rw [consistencySides_left hk hm hle hlt, ← ih fun _ => ⟨_, hk⟩]
    simp
  | right m n k hk hpos hlt h ih =>
    rw [consistencySides_right hk hpos hlt h]
    refine ⟨fun hnot => absurd mem_cons_self hnot, ?_⟩
    rintro ⟨s, rfl⟩
    obtain ⟨t, rfl⟩ : ∃ t, k = 2 ^ t := ⟨_, hk⟩
    have htwic := le_two_mul_largestPowerOfTwoLessThan (n := n)
    have hlow : t < s := (Nat.pow_lt_pow_iff_right (by decide)).mp hlt
    have hhigh : 2 ^ (t + 1) ≤ 2 ^ s := Nat.pow_le_pow_right (by decide) hlow
    rw [Nat.pow_succ] at hhigh
    omega

lemma shiftOnes_eq_zero : (shiftOnes old new).1 = 0 ↔ ∃ t, old + 1 = 2 ^ t := by
  induction old using Nat.strong_induction_on generalizing new with
  | _ old ih =>
    rcases Nat.mod_two_eq_zero_or_one old with heven | hodd
    · rw [shiftOnes_even heven]
      constructor
      · rintro rfl
        exact ⟨0, rfl⟩
      · rintro ⟨t, ht⟩
        cases t with
        | zero => exact Nat.succ.inj ht
        | succ t =>
          rw [Nat.pow_succ] at ht
          omega
    · rw [shiftOnes_odd hodd, ih _ (by omega)]
      constructor
      · rintro ⟨t, ht⟩
        refine ⟨t + 1, ?_⟩
        rw [Nat.pow_succ, ← ht]
        omega
      · rintro ⟨t, ht⟩
        cases t with
        | zero => omega
        | succ t =>
          rw [Nat.pow_succ] at ht
          exact ⟨t, by omega⟩

/-! ## The verifier -/

section
variable {Λ : Type} {hash : Preimage Λ Digest → Digest}

/-- The steps that the old tree shares with the new one. -/
def rightSteps (steps : List (Side × Digest)) : List (Side × Digest) :=
  steps.filter fun step => step.1 = .right

lemma rightSteps_append (steps others : List (Side × Digest)) :
    rightSteps (steps ++ others) = rightSteps steps ++ rightSteps others := filter_append ..

lemma rightSteps_eq_nil {sides : List Side} {siblings : List Digest} (h : .right ∉ sides) :
    rightSteps (sides.zip siblings) = [] := by
  refine filter_eq_nil_iff.mpr fun step hstep => ?_
  have hside : step.1 ∈ sides := (of_mem_zip hstep).1
  rw [decide_eq_true_eq]
  exact fun heq => h (heq ▸ hside)

lemma cursorSides_eq_nil : cursorSides old new = [] ↔ new = 0 := by
  rw [cursorSides]
  split
  · rename_i hzero
    exact iff_of_true rfl hzero
  · rename_i hne
    split
    · exact iff_of_false (cons_ne_nil _ _) hne
    · exact iff_of_false (cons_ne_nil _ _) hne

lemma consistencyLoop_ok {x y x' y' : Digest} {path : List Digest} :
    consistencyLoop hash old new x y path = .ok (0, x', y') ↔
      path.length = (cursorSides old new).length ∧
      climb hash x (rightSteps ((cursorSides old new).zip path).reverse) = x' ∧
      climb hash y ((cursorSides old new).zip path).reverse = y' := by
  induction path generalizing old new x y with
  | nil =>
    simp only [consistencyLoop, Except.ok.injEq, Prod.mk.injEq, length_nil, zip_nil_right,
      reverse_nil, climb]
    rw [eq_comm (a := 0), length_eq_zero_iff, cursorSides_eq_nil]
    rfl
  | cons sibling rest ih =>
    by_cases hnew : new = 0
    · simp [consistencyLoop, hnew, cursorSides_zero]
    · by_cases hrig : old % 2 = 1 ∨ old = new
      · simp only [consistencyLoop, hnew, hrig, if_true, if_false, ih,
          cursorSides_right hnew hrig, length_cons, Nat.add_right_cancel_iff,
          zip_cons_cons, reverse_cons, rightSteps_append]
        have hone : rightSteps [(.right, sibling)] = [(.right, sibling)] := rfl
        rw [hone, climb_append, climb_append]
        rfl
      · have hpair : old % 2 = 0 ∧ old ≠ new := by omega
        simp only [consistencyLoop, hnew, hrig, if_false, ih,
          cursorSides_left hnew hpair.1 hpair.2, length_cons, Nat.add_right_cancel_iff,
          zip_cons_cons, reverse_cons, rightSteps_append]
        have hnone : rightSteps [(.left, sibling)] = [] := rfl
        rw [hnone, append_nil, climb_append]
        rfl

section
variable {m n : Nat} {x y x' y' : Digest} {path : List Digest}

lemma consistencyLoop_sides (hm : 0 < m) (h : m < n) :
    consistencyLoop hash (shiftOnes (m - 1) (n - 1)).1 (shiftOnes (m - 1) (n - 1)).2 x y path =
        .ok (0, x', y') ↔
      path.length = (consistencySides m n).length ∧
      climb hash x (rightSteps ((consistencySides m n).zip path.reverse)) = x' ∧
      climb hash y ((consistencySides m n).zip path.reverse) = y' := by
  have hsid : cursorSides (shiftOnes (m - 1) (n - 1)).1 (shiftOnes (m - 1) (n - 1)).2 =
      (consistencySides m n).reverse := shiftedSides_eq hm h.le fun heq => by omega
  rw [consistencyLoop_ok, hsid, length_reverse]
  refine and_congr_right fun hlen => ?_
  have hzip : ((consistencySides m n).reverse.zip path).reverse =
      (consistencySides m n).zip path.reverse := by
    rw [zip_eq_zipWith, zip_eq_zipWith, reverse_zipWith, reverse_reverse]
    rw [length_reverse, hlen]
  rw [hzip]

lemma shiftOnes_eq_zero_iff (hm : 0 < m) (h : m < n) :
    (shiftOnes (m - 1) (n - 1)).1 = 0 ↔ .right ∉ consistencySides m n := by
  rw [shiftOnes_eq_zero, Nat.sub_add_cancel hm,
    right_not_mem_consistencySides hm h.le fun heq => by omega]

end

namespace MerkleConsistencyProof

/-- The path is the seed, unless the old root is the seed, and one sibling for each side. -/
structure Climbs (hash : Preimage Λ Digest → Digest) (proof : MerkleConsistencyProof)
    (oldRoot newRoot seed : Digest) (siblings : List Digest) : Prop where
  path : if .right ∈ consistencySides proof.oldSize proof.newSize then
      proof.auditPath = seed :: siblings.reverse
    else seed = oldRoot ∧ proof.auditPath = siblings.reverse
  length : siblings.length = (consistencySides proof.oldSize proof.newSize).length
  old : climb hash seed
    (rightSteps ((consistencySides proof.oldSize proof.newSize).zip siblings)) = oldRoot
  new : climb hash seed ((consistencySides proof.oldSize proof.newSize).zip siblings) = newRoot

lemma verify_ok {proof : MerkleConsistencyProof} {oldRoot newRoot : Digest}
    (hpos : 0 < proof.oldSize) (hlt : proof.oldSize < proof.newSize) :
    proof.verify hash oldRoot newRoot = .ok () ↔
      ∃ seed siblings, proof.Climbs hash oldRoot newRoot seed siblings := by
  have hzero := shiftOnes_eq_zero_iff hpos hlt
  rw [verify, if_neg (by omega), if_neg (by omega)]
  simp only [bind_ok, reject_ok, not_or, not_not, Prod.exists]
  constructor
  · rintro ⟨seed, path, hseed, _, _, _, hloop, rfl, rfl, rfl⟩
    obtain ⟨hlen, hold, hnew⟩ := (consistencyLoop_sides hpos hlt).mp hloop
    refine ⟨seed, path.reverse, ?_, by rwa [length_reverse], hold, hnew⟩
    unfold MerkleConsistencyProof.seed at hseed
    rw [reverse_reverse]
    by_cases hrig : .right ∈ consistencySides proof.oldSize proof.newSize
    · rw [if_neg fun h => hzero.mp h hrig] at hseed
      rw [if_pos hrig]
      exact nextPathHash_ok hseed
    · rw [if_pos (hzero.mpr hrig)] at hseed
      rw [if_neg hrig]
      obtain ⟨hseed, hpath⟩ := Prod.mk.inj (Except.ok.inj hseed)
      exact ⟨hseed.symm, hpath⟩
  · rintro ⟨seed, siblings, hpath, hlen, hold, hnew⟩
    refine ⟨seed, siblings.reverse, ?_, 0, oldRoot, newRoot,
      (consistencyLoop_sides hpos hlt).mpr ?_, rfl, rfl, rfl⟩
    · unfold MerkleConsistencyProof.seed
      by_cases hrig : .right ∈ consistencySides proof.oldSize proof.newSize
      · rw [if_pos hrig] at hpath
        rw [if_neg fun h => hzero.mp h hrig, hpath]
        rfl
      · rw [if_neg hrig] at hpath
        rw [if_pos (hzero.mpr hrig), hpath.1, hpath.2]
    · rw [length_reverse, reverse_reverse]
      exact ⟨hlen, hold, hnew⟩

end MerkleConsistencyProof
end
end Krikos.Identity
