import Mathlib.Data.Set.Function

/-!
# Lib.HashTree

Binary hash trees over any leaves and digests. A leaf is named by its address, the sides to take
from the root down. Climbing from a leaf digest over given siblings recomputes a root; what such
a climb proves about the tree depends on its address only, not on any claimed size.

The hash is one function of a tagged preimage. The soundness results ask that no two preimages
that were hashed, on the side of the tree or on the side of the climb, collide.
-/

namespace Krikos.Lib.HashTree

open List

variable {Λ δ : Type}

inductive Side where
  | left
  | right
  deriving DecidableEq

/-- What is hashed: the domains of leaves, of inner nodes and of the empty tree are apart. -/
inductive Preimage (Λ δ : Type) where
  | empty
  | leaf (a : Λ)
  | node (left right : δ)
  deriving DecidableEq

inductive LeafTree (Λ : Type) where
  | empty
  | leaf (a : Λ)
  | node (left right : LeafTree Λ)

namespace LeafTree

def leaves : LeafTree Λ → List Λ
  | .empty => []
  | .leaf a => [a]
  | .node left right => left.leaves ++ right.leaves

/-- The leaf at exactly this address. -/
def get? : LeafTree Λ → List Side → Option Λ
  | .leaf a, [] => some a
  | .node left _, .left :: address => left.get? address
  | .node _ right, .right :: address => right.get? address
  | _, _ => none

variable (hash : Preimage Λ δ → δ)

def digest : LeafTree Λ → δ
  | .empty => hash .empty
  | .leaf a => hash (.leaf a)
  | .node left right => hash (.node left.digest right.digest)

/-- Everything that is hashed to get the digest. -/
def preimages : LeafTree Λ → Set (Preimage Λ δ)
  | .empty => {.empty}
  | .leaf a => {.leaf a}
  | .node left right =>
    insert (.node (left.digest hash) (right.digest hash)) (left.preimages ∪ right.preimages)

def siblings : LeafTree Λ → List Side → List δ
  | .node left right, .left :: address => right.digest hash :: left.siblings address
  | .node left right, .right :: address => left.digest hash :: right.siblings address
  | _, _ => []

end LeafTree

/-! ## Climbing -/

section
variable (hash : Preimage Λ δ → δ) (x : δ)

/-- The root above the digest `x`, with the sides and siblings from the root down. -/
def climb : List (Side × δ) → δ
  | [] => x
  | (.left, sibling) :: steps => hash (.node (climb steps) sibling)
  | (.right, sibling) :: steps => hash (.node sibling (climb steps))

def climbed : List (Side × δ) → Set (Preimage Λ δ)
  | [] => ∅
  | (.left, sibling) :: steps => insert (.node (climb hash x steps) sibling) (climbed steps)
  | (.right, sibling) :: steps => insert (.node sibling (climb hash x steps)) (climbed steps)

end

variable {hash : Preimage Λ δ → δ} {t : LeafTree Λ} {a b : Λ} {address : List Side}
  {steps : List (Side × δ)}

lemma LeafTree.mem_preimages_self (hash : Preimage Λ δ → δ) (t : LeafTree Λ) :
    ∃ p ∈ t.preimages hash, hash p = t.digest hash ∧
      (∀ a, p = .leaf a → t = .leaf a) ∧ (p = .empty → t = .empty) ∧
      ∀ x y, p = .node x y →
        ∃ left right, t = .node left right ∧ x = left.digest hash ∧ y = right.digest hash := by
  cases t with
  | empty => exact ⟨.empty, rfl, rfl, by simp, by simp, by simp⟩
  | leaf a => exact ⟨.leaf a, rfl, rfl, by simp, by simp, by simp⟩
  | node left right =>
    refine ⟨_, Set.mem_insert _ _, rfl, by simp, by simp, ?_⟩
    rintro x y ⟨⟩
    exact ⟨left, right, rfl, rfl, rfl⟩

lemma eq_empty_of_digest (h : t.digest hash = hash .empty)
    (hinj : Set.InjOn hash (insert .empty (t.preimages hash))) : t = .empty := by
  obtain ⟨p, hp, hpd, -, hemp, -⟩ := t.mem_preimages_self hash
  exact hemp (hinj (Set.mem_insert_of_mem _ hp) (Set.mem_insert _ _) (hpd.trans h))

lemma eq_of_digest {u : LeafTree Λ} (h : t.digest hash = u.digest hash)
    (hinj : Set.InjOn hash (t.preimages hash ∪ u.preimages hash)) : t = u := by
  induction t generalizing u with
  | empty =>
    obtain ⟨p, hp, hpd, -, hemp, -⟩ := u.mem_preimages_self hash
    exact (hemp (hinj (.inr hp) (.inl rfl) (hpd.trans h.symm))).symm
  | leaf a =>
    obtain ⟨p, hp, hpd, hleaf, -, -⟩ := u.mem_preimages_self hash
    exact (hleaf a (hinj (.inr hp) (.inl rfl) (hpd.trans h.symm))).symm
  | node left right ihl ihr =>
    obtain ⟨p, hp, hpd, -, -, hnode⟩ := u.mem_preimages_self hash
    obtain ⟨left', right', rfl, hl, hr⟩ := hnode _ _
      (hinj (.inr hp) (.inl (Set.mem_insert _ _)) (hpd.trans h.symm))
    rw [ihl hl (hinj.mono (Set.union_subset_union ?_ ?_)),
      ihr hr (hinj.mono (Set.union_subset_union ?_ ?_))]
    · exact fun q hq => Set.mem_insert_of_mem _ (.inr hq)
    · exact fun q hq => Set.mem_insert_of_mem _ (.inr hq)
    · exact fun q hq => Set.mem_insert_of_mem _ (.inl hq)
    · exact fun q hq => Set.mem_insert_of_mem _ (.inl hq)

lemma node_of_digest {S : Set (Preimage Λ δ)} {left right : LeafTree Λ} {x y : δ}
    (h : hash (.node x y) = (LeafTree.node left right).digest hash) (hinj : Set.InjOn hash S)
    (hnode : .node x y ∈ S) (htree : (LeafTree.node left right).preimages hash ⊆ S) :
    x = left.digest hash ∧ y = right.digest hash :=
  Preimage.node.inj (hinj hnode (htree (Set.mem_insert _ _)) h)

lemma climb_append (x : δ) (steps rest : List (Side × δ)) :
    climb hash x (steps ++ rest) = climb hash (climb hash x rest) steps := by
  fun_induction climb hash (climb hash x rest) steps with
  | case1 => rfl
  | case2 other steps ih | case3 other steps ih => simp only [cons_append, climb, ih]

lemma climb_siblings (h : t.get? address = some a) :
    climb hash (hash (.leaf a)) (address.zip (t.siblings hash address)) = t.digest hash := by
  fun_induction LeafTree.get? t address with
  | case1 b =>
    obtain rfl : b = a := Option.some.inj h
    rfl
  | case2 left right address ih | case3 left right address ih =>
    simp only [LeafTree.siblings, zip_cons_cons, climb, LeafTree.digest, ih h]
  | case4 => cases h

lemma length_siblings (h : t.get? address = some a) :
    (t.siblings hash address).length = address.length := by
  fun_induction LeafTree.get? t address with
  | case1 b => rfl
  | case2 left right address ih | case3 left right address ih =>
    simp only [LeafTree.siblings, length_cons, ih h]
  | case4 => cases h

/-- A climb from a leaf that ends at the digest of the tree started at that leaf of the tree. -/
lemma get?_of_climb (h : climb hash (hash (.leaf a)) steps = t.digest hash) (hinj : Set.InjOn hash
      (t.preimages hash ∪ insert (.leaf a) (climbed hash (hash (.leaf a)) steps))) :
    t.get? (steps.map Prod.fst) = some a := by
  -- the root of the climb and the root of the tree have one preimage, so their parts agree
  induction steps generalizing t with
  | nil =>
    obtain ⟨p, hp, hpd, hleaf, -, -⟩ := t.mem_preimages_self hash
    have hpa : p = .leaf a :=
      hinj (.inl hp) (.inr (Set.mem_insert _ _)) (hpd.trans h.symm)
    rw [hleaf a hpa]
    rfl
  | cons step steps ih =>
    obtain ⟨side, sibling⟩ := step
    obtain ⟨p, hp, hpd, -, -, hnode⟩ := t.mem_preimages_self hash
    cases side with
    | left =>
      have hpa := hinj (.inl hp) (.inr (Set.mem_insert_of_mem _ (Set.mem_insert _ _)))
        (hpd.trans h.symm)
      obtain ⟨left, right, rfl, hl, -⟩ := hnode _ _ hpa
      refine ih hl (hinj.mono (Set.union_subset_union ?_ ?_))
      · exact fun q hq => Set.mem_insert_of_mem _ (.inl hq)
      · exact Set.insert_subset_insert (Set.subset_insert _ _)
    | right =>
      have hpa := hinj (.inl hp) (.inr (Set.mem_insert_of_mem _ (Set.mem_insert _ _)))
        (hpd.trans h.symm)
      obtain ⟨left, right, rfl, -, hr⟩ := hnode _ _ hpa
      refine ih hr (hinj.mono (Set.union_subset_union ?_ ?_))
      · exact fun q hq => Set.mem_insert_of_mem _ (.inr hq)
      · exact Set.insert_subset_insert (Set.subset_insert _ _)

/-! ## Addresses and the order of the leaves -/

lemma mem_leaves_of_get? (h : t.get? address = some a) : a ∈ t.leaves := by
  fun_induction LeafTree.get? t address with
  | case1 b =>
    obtain rfl : b = a := Option.some.inj h
    exact mem_singleton.mpr rfl
  | case2 left right address ih => exact mem_append_left _ (ih h)
  | case3 left right address ih => exact mem_append_right _ (ih h)
  | case4 => cases h

/-- An address that keeps to one side is that of the first or last leaf. -/
lemma leaves_of_outermost {k : Nat} {side : Side} (h : t.get? (replicate k side) = some a) :
    match side with
    | .left => ∃ rest, t.leaves = a :: rest
    | .right => ∃ before, t.leaves = before ++ [a] := by
  induction k generalizing t with
  | zero =>
    cases t with
    | leaf b =>
      obtain rfl : b = a := Option.some.inj h
      cases side <;> exact ⟨[], rfl⟩
    | empty | node left right => cases h
  | succ k ih =>
    cases t with
    | node left right =>
      cases side with
      | left =>
        obtain ⟨rest, hrest⟩ := ih (t := left) h
        exact ⟨rest ++ right.leaves, by rw [LeafTree.leaves, hrest, cons_append]⟩
      | right =>
        obtain ⟨before, hbef⟩ := ih (t := right) h
        exact ⟨left.leaves ++ before, by rw [LeafTree.leaves, hbef, append_assoc]⟩
    | empty | leaf b => cases h

/-- Addresses of neighbours: they part once, and then the left one keeps right and the right one
keeps left. -/
inductive Adjacent : List Side → List Side → Prop where
  | part (j k : Nat) :
      Adjacent (.left :: replicate j .right) (.right :: replicate k .left)
  | cons (side : Side) {l r : List Side} : Adjacent l r → Adjacent (side :: l) (side :: r)

/-- The leaves at adjacent addresses are neighbours, in whichever tree they are. -/
lemma leaves_of_adjacent {l r : List Side} (h : Adjacent l r) (ha : t.get? l = some a)
    (hb : t.get? r = some b) : ∃ before rest, t.leaves = before ++ a :: b :: rest := by
  induction h generalizing t with
  | part j k =>
    cases t with
    | node left right =>
      obtain ⟨before, hbef⟩ := leaves_of_outermost (t := left) ha
      obtain ⟨rest, hrest⟩ := leaves_of_outermost (t := right) hb
      exact ⟨before, rest, by rw [LeafTree.leaves, hbef, hrest, append_assoc]; rfl⟩
    | empty | leaf c => cases ha
  | cons side hadj ih =>
    cases t with
    | node left right =>
      cases side with
      | left =>
        obtain ⟨before, rest, hleav⟩ := ih (t := left) ha hb
        exact ⟨before, rest ++ right.leaves, by simp [LeafTree.leaves, hleav]⟩
      | right =>
        obtain ⟨before, rest, hleav⟩ := ih (t := right) ha hb
        exact ⟨left.leaves ++ before, rest, by simp [LeafTree.leaves, hleav]⟩
    | empty | leaf c => cases ha

end Krikos.Lib.HashTree
