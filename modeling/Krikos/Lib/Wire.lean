import Krikos.Lib.Bytes

/-!
# Lib.Wire

Self-delimiting binary formats as pairs of a writer and a reader.

A `Wire` carries its laws: what was written is read back, whatever follows it, and no reader gets a
value out of fewer bytes than its writer makes (a reader may accept longer forms: a variable-length
number with leading zero groups). Writing is only read back below 2^64 bytes, the range in which
the length of a list is a number of the format.
-/

namespace Krikos.Lib

open List

structure Wire (α : Type) where
  put : α → Bytes
  get : Bytes → Option (α × Bytes)
  get_put : ∀ a rest, (put a).length < 2 ^ 64 → get (put a ++ rest) = some (a, rest)
  length_le : ∀ {b a rest}, get b = some (a, rest) → (put a).length + rest.length ≤ b.length

namespace Wire
variable {α β : Type} {n k : Nat} {b rest : Bytes}

/-! ## Variable-length numbers -/

/-- Groups of seven bits, lowest first, of which there are at most `k`; the high bit marks that
another group follows. -/
def putGroups : Nat → Nat → Bytes
  | 0, _ => []
  | k + 1, n =>
    if n < 128 then [Fin.ofNat 256 n]
    else Fin.ofNat 256 (n % 128 + 128) :: putGroups k (n / 128)

def putVarint (n : Nat) : Bytes := putGroups (n + 1) n

/-- Reads a number of at most `k` groups. -/
def getVarint : Nat → Bytes → Option (Nat × Bytes)
  | 0, _ => none
  | _ + 1, [] => none
  | k + 1, b :: rest =>
    if b.val < 128 then some (b.val, rest)
    else
      match getVarint k rest with
      | none => none
      | some (n, rest) => some (b.val - 128 + 128 * n, rest)

lemma putGroups_eq (h : n < k) : putGroups k n = putVarint n := by
  induction k using Nat.strongRecOn generalizing n with
  | ind k ih =>
    obtain ⟨k, rfl⟩ := Nat.exists_eq_add_one.mpr (Nat.lt_of_le_of_lt (Nat.zero_le n) h)
    rw [putVarint, putGroups, putGroups]
    split
    · rfl
    · rename_i hn
      rw [ih k (by omega) (by omega), ih n (by omega) (by omega)]

lemma putVarint_small (h : n < 128) : putVarint n = [Fin.ofNat 256 n] := by
  rw [putVarint, putGroups, if_pos h]

lemma putVarint_large (h : ¬ n < 128) :
    putVarint n = Fin.ofNat 256 (n % 128 + 128) :: putVarint (n / 128) := by
  rw [putVarint, putGroups, if_neg h, putGroups_eq (by omega)]

lemma putVarint_pos (n : Nat) : 0 < (putVarint n).length := by
  rw [putVarint, putGroups]
  split <;> simp

lemma putVarint_length_le (h : n < 128 ^ (k + 1)) : (putVarint n).length ≤ k + 1 := by
  induction k generalizing n with
  | zero => simp [putVarint_small (show n < 128 by simpa using h)]
  | succ k ih =>
    by_cases hn : n < 128
    · simp [putVarint_small hn]
    · rw [putVarint_large hn, length_cons]
      have hdiv : n / 128 < 128 ^ (k + 1) := by
        rw [Nat.pow_succ] at h
        omega
      exact Nat.succ_le_succ (ih hdiv)

lemma getVarint_putVarint (h : n < 128 ^ (k + 1)) (rest : Bytes) :
    getVarint (k + 1) (putVarint n ++ rest) = some (n, rest) := by
  induction k generalizing n with
  | zero =>
    have hn : n < 128 := by simpa using h
    have hb : n % 256 = n := Nat.mod_eq_of_lt (by omega)
    rw [putVarint_small hn]
    simp [getVarint, hb, hn]
  | succ k ih =>
    by_cases hn : n < 128
    · have hb : n % 256 = n := Nat.mod_eq_of_lt (by omega)
      rw [putVarint_small hn]
      simp [getVarint, hb, hn]
    · have hb : (n % 128 + 128) % 256 = n % 128 + 128 := Nat.mod_eq_of_lt (by omega)
      have hrest : n / 128 < 128 ^ (k + 1) := by
        rw [Nat.pow_succ] at h
        omega
      rw [putVarint_large hn, cons_append, getVarint]
      simp only [Fin.val_ofNat, hb, ih hrest]
      rw [if_neg (by omega)]
      congr 2
      omega

/-- A group more never makes the shortest form of a number longer by more than itself. -/
lemma putVarint_length_step {c : Nat} (hc : c < 128) :
    (putVarint (c + 128 * n)).length ≤ 1 + (putVarint n).length := by
  by_cases h : c + 128 * n < 128
  · rw [putVarint_small h, length_singleton]
    omega
  · have hdiv : (c + 128 * n) / 128 = n := by omega
    rw [putVarint_large h, length_cons, hdiv]
    omega

lemma getVarint_length (h : getVarint k b = some (n, rest)) :
    (putVarint n).length + rest.length ≤ b.length := by
  fun_induction getVarint k b generalizing n rest with
  | case3 k c b hc =>
    cases h
    rw [putVarint_small hc]
    simp [Nat.add_comm]
  | case5 k c b hc n' rest' hget ih =>
    cases h
    have hc' : c.val - 128 < 128 := by omega
    have hstep := putVarint_length_step (n := n') hc'
    have hrest := ih hget
    rw [length_cons]
    omega
  | _ => cases h

/-- Numbers below `bound`, in at most `k + 1` groups. -/
def number (k bound : Nat) (h : bound ≤ 128 ^ (k + 1)) : Wire (Fin bound) where
  put n := putVarint n.val
  get b :=
    match getVarint (k + 1) b with
    | none => none
    | some (n, rest) => if hn : n < bound then some (⟨n, hn⟩, rest) else none
  get_put := by
    intro n rest _
    rw [getVarint_putVarint (lt_of_lt_of_le n.isLt h)]
    simp
  length_le := by
    intro b n rest hget
    split at hget
    · cases hget
    · rename_i n' rest' hn'
      split at hget
      · cases hget
        exact getVarint_length hn'
      · cases hget

/-! ## Combinators -/

/-- Exactly `n` bytes. -/
def fixed (n : Nat) : Wire (FixedBytes n) where
  put a := a.val
  get b := if h : n ≤ b.length then
      some (⟨b.take n, by rw [length_take]; omega⟩, b.drop n)
    else none
  get_put := by
    intro a rest _
    have hlen := a.property
    have hle : n ≤ (a.val ++ rest).length := by
      rw [length_append]
      omega
    rw [dif_pos hle]
    simp only [take_left' hlen, drop_left' hlen]
  length_le := by
    intro b a rest hget
    split at hget
    · cases hget
      rw [← length_append, take_append_drop]
    · cases hget

def byte : Wire Byte where
  put a := [a]
  get
    | [] => none
    | a :: rest => some (a, rest)
  get_put := fun _ _ _ => rfl
  length_le := by
    intro b a rest hget
    cases b with
    | nil => cases hget
    | cons c b =>
      cases hget
      simp [Nat.add_comm]

def pair (wa : Wire α) (wb : Wire β) : Wire (α × β) where
  put x := wa.put x.1 ++ wb.put x.2
  get b :=
    match wa.get b with
    | none => none
    | some (x, rest) =>
      match wb.get rest with
      | none => none
      | some (y, rest) => some ((x, y), rest)
  get_put := by
    intro x rest h
    rw [length_append] at h
    rw [append_assoc, wa.get_put _ _ (by omega)]
    simp only [wb.get_put _ _ (show (wb.put x.2).length < 2 ^ 64 by omega)]
  length_le := by
    intro b x rest hget
    split at hget
    · cases hget
    · rename_i y rest₁ h₁
      split at hget
      · cases hget
      · rename_i z rest₂ h₂
        cases hget
        have hle₁ := wa.length_le h₁
        have hle₂ := wb.length_le h₂
        simp only [length_append]
        omega

/-- The same bytes for another type. -/
def iso (w : Wire α) (e : α ≃ β) : Wire β where
  put y := w.put (e.symm y)
  get b :=
    match w.get b with
    | none => none
    | some (x, rest) => some (e x, rest)
  get_put := by
    intro y rest h
    rw [w.get_put _ _ h]
    simp
  length_le := by
    intro b y rest hget
    split at hget
    · cases hget
    · rename_i x rest' hx
      cases hget
      simpa using w.length_le hx

lemma two_tags : 2 ≤ 128 ^ 5 := by decide

lemma three_tags : 3 ≤ 128 ^ 5 := by decide

instance neZero_two_tags : NeZero 2 := ⟨by decide⟩

instance neZero_three_tags : NeZero 3 := ⟨by decide⟩

/-- The number of a variant, and what it carries. -/
def tagged {n : Nat} (h : n ≤ 128 ^ 5) {γ : Fin n → Type} (w : (i : Fin n) → Wire (γ i)) :
    Wire ((i : Fin n) × γ i) where
  put x := (number 4 n h).put x.1 ++ (w x.1).put x.2
  get b :=
    match (number 4 n h).get b with
    | none => none
    | some (i, rest) =>
      match (w i).get rest with
      | none => none
      | some (y, rest) => some (⟨i, y⟩, rest)
  get_put := by
    intro x rest hx
    rw [length_append] at hx
    rw [append_assoc, (number 4 n h).get_put _ _ (by omega)]
    simp only [(w x.1).get_put _ _ (show ((w x.1).put x.2).length < 2 ^ 64 by omega)]
  length_le := by
    intro b x rest hget
    split at hget
    · cases hget
    · rename_i i rest₁ h₁
      split at hget
      · cases hget
      · rename_i y rest₂ h₂
        cases hget
        have hle₁ := (number 4 n h).length_le h₁
        have hle₂ := (w i).length_le h₂
        simp only [length_append]
        omega

/-! ## Lists -/

/-- Reads `n` values. -/
def getMany (w : Wire α) : Nat → Bytes → Option (List α × Bytes)
  | 0, b => some ([], b)
  | n + 1, b =>
    match w.get b with
    | none => none
    | some (x, rest) =>
      match getMany w n rest with
      | none => none
      | some (l, rest) => some (x :: l, rest)

lemma getMany_put (w : Wire α) (l : List α) (rest : Bytes) (h : (l.flatMap w.put).length < 2 ^ 64) :
    getMany w l.length (l.flatMap w.put ++ rest) = some (l, rest) := by
  induction l with
  | nil => rfl
  | cons x l ih =>
    rw [flatMap_cons, length_append] at h
    rw [flatMap_cons, append_assoc, length_cons, getMany, w.get_put _ _ (by omega)]
    simp only [ih (by omega)]

lemma getMany_length (w : Wire α) {l : List α} (h : getMany w n b = some (l, rest)) :
    l.length = n ∧ (l.flatMap w.put).length + rest.length ≤ b.length := by
  fun_induction getMany w n b generalizing l with
  | case1 b =>
    cases h
    simp
  | case4 n b x rest₁ h₁ l' rest₂ h₂ ih =>
    cases h
    have hle₁ := w.length_le h₁
    obtain ⟨hlen, hle₂⟩ := ih h₂
    rw [flatMap_cons, length_append, length_cons]
    omega
  | _ => cases h

lemma length_le_flatMap {w : Wire α} (hw : ∀ a, 0 < (w.put a).length) (l : List α) :
    l.length ≤ (l.flatMap w.put).length := by
  induction l with
  | nil => exact Nat.le_refl _
  | cons x l ih =>
    have hx := hw x
    rw [flatMap_cons, length_append, length_cons]
    omega

def list (w : Wire α) (hw : ∀ a, 0 < (w.put a).length) : Wire (List α) where
  put l := putVarint l.length ++ l.flatMap w.put
  get b :=
    match (number 9 (2 ^ 64) (by decide)).get b with
    | none => none
    | some (n, rest) => getMany w n.val rest
  get_put := by
    intro l rest h
    rw [length_append] at h
    have hlen : l.length < 2 ^ 64 := by
      have hle := length_le_flatMap hw l
      omega
    have hpre := (number 9 (2 ^ 64) (by decide)).get_put ⟨l.length, hlen⟩
      (l.flatMap w.put ++ rest) (by simp only [number]; omega)
    simp only [number] at hpre
    rw [append_assoc]
    simp only [number, hpre]
    exact getMany_put w l rest (by omega)
  length_le := by
    intro b l rest hget
    split at hget
    · cases hget
    · rename_i n rest₁ h₁
      have hle₁ := (number 9 (2 ^ 64) (by decide)).length_le h₁
      obtain ⟨hlen, hle₂⟩ := getMany_length w hget
      simp only [number] at hle₁
      rw [length_append, hlen]
      omega

def bool : Wire Bool := (number 0 2 (by decide)).iso finTwoEquiv

def bytes : Wire Bytes := list byte fun _ => Nat.one_pos

def u64 : Wire U64 := number 9 (2 ^ 64) (by decide)

/-! ## Sizes -/

lemma pair_pos {wa : Wire α} {wb : Wire β} (h : ∀ a, 0 < (wa.put a).length) (x : α × β) :
    0 < ((wa.pair wb).put x).length := by
  have hx := h x.1
  simp only [pair, length_append]
  omega

lemma tagged_pos (h : n ≤ 128 ^ 5) {γ : Fin n → Type} (w : (i : Fin n) → Wire (γ i))
    (x : (i : Fin n) × γ i) : 0 < ((tagged h w).put x).length := by
  have hx := putVarint_pos x.1.val
  simp only [tagged, number, length_append]
  omega

end Wire
end Krikos.Lib
