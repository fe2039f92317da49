import Mathlib

/-!
# Lib.Bytes

Byte strings in lexicographic order, byte strings of a fixed length, and 64-bit numbers.
-/

namespace Krikos.Lib

open List

abbrev Byte := Fin 256

instance neZero_byte : NeZero 256 := ⟨by decide⟩

abbrev Bytes := List Byte

abbrev FixedBytes (n : Nat) := {b : Bytes // b.length = n}

def FixedBytes.zero (n : Nat) : FixedBytes n := ⟨replicate n 0, length_replicate⟩

def FixedBytes.max (n : Nat) : FixedBytes n := ⟨replicate n 255, length_replicate⟩

abbrev U64 := Fin (2 ^ 64)

instance neZero_u64 : NeZero (2 ^ 64) := ⟨by decide⟩

def U64.toBeBytes (n : U64) : Bytes :=
  (range 8).map fun i => Fin.ofNat 256 (n.val / 256 ^ (7 - i))

/-- The `k` lowest bytes of a number, highest first. -/
def beBytes : Nat → Nat → Bytes
  | 0, _ => []
  | k + 1, n => beBytes k (n / 256) ++ [Fin.ofNat 256 n]

/-- The number with the given bytes, highest first. -/
def ofBeBytes (b : Bytes) : Nat := b.foldl (fun n c => n * 256 + c.val) 0

@[simp] lemma length_beBytes (k n : Nat) : (beBytes k n).length = k := by
  induction k generalizing n with
  | zero => rfl
  | succ k ih => simp [beBytes, ih]

lemma ofBeBytes_beBytes {k n : Nat} (h : n < 256 ^ k) : ofBeBytes (beBytes k n) = n := by
  induction k generalizing n with
  | zero =>
    obtain rfl : n = 0 := by omega
    rfl
  | succ k ih =>
    have hdiv : n / 256 < 256 ^ k := by
      rw [Nat.pow_succ] at h
      omega
    have hrec := ih hdiv
    rw [ofBeBytes] at hrec
    rw [beBytes, ofBeBytes, foldl_append, hrec]
    simp only [foldl_cons, foldl_nil, Fin.val_ofNat]
    omega

namespace Bytes
variable {a b x y p : Bytes} {i j : Byte}

lemma cons_lt_cons : i :: a < j :: b ↔ i < j ∨ i = j ∧ a < b :=
  cons_lt_cons_iff

lemma cons_le_cons : i :: a ≤ j :: b ↔ i < j ∨ i = j ∧ a ≤ b := by
  rw [← not_lt, cons_lt_cons, ← not_lt (a := b)]
  grind

lemma nil_le (a : Bytes) : [] ≤ a := not_lt.mp (not_lt_nil a)

/-- Strings that start with parts of equal length compare by these parts first. -/
lemma append_lt_append (h : a.length = b.length) : a ++ x < b ++ y ↔ a < b ∨ a = b ∧ x < y := by
  induction a generalizing b with
  | nil =>
    obtain rfl := length_eq_zero_iff.mp h.symm
    simp
  | cons i a ih =>
    cases b with
    | nil => cases h
    | cons j b =>
      have hlen : a.length = b.length := by simpa using h
      rw [cons_append, cons_append, cons_lt_cons, cons_lt_cons, ih hlen]
      simp only [cons.injEq]
      tauto

lemma le_of_prefix (h : a <+: b) : a ≤ b := by
  obtain ⟨t, rfl⟩ := h
  induction a with
  | nil => exact nil_le _
  | cons i a ih => exact cons_le_cons.mpr (.inr ⟨rfl, ih⟩)

lemma le_of_forall₂ (h : Forall₂ (· ≤ ·) a b) : a ≤ b := by
  induction h with
  | nil => exact le_rfl
  | cons hle _ ih =>
    rw [cons_le_cons]
    cases lt_or_eq_of_le hle with
    | inl hlt => exact .inl hlt
    | inr heq => exact .inr ⟨heq, ih⟩

end Bytes

lemma FixedBytes.zero_le {n : Nat} (b : FixedBytes n) : FixedBytes.zero n ≤ b :=
  Bytes.le_of_forall₂ (forall₂_iff_get.mpr ⟨by simp [zero, b.2], fun i _ _ => by simp [zero]⟩)

lemma FixedBytes.le_max {n : Nat} (b : FixedBytes n) : b ≤ FixedBytes.max n := by
  refine Bytes.le_of_forall₂ (forall₂_iff_get.mpr ⟨by simp [max, b.2], fun i _ _ => ?_⟩)
  simp only [max, get_eq_getElem, getElem_replicate]
  exact Fin.le_last _

end Krikos.Lib
