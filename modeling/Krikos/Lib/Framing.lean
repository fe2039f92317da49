import Krikos.Lib.Bytes

/-!
# Lib.Framing

Decoders that take frames off the front of a buffer, and the loop that feeds them.

A `Decoder` answers with a value and the remaining bytes, or asks for more bytes and leaves the
buffer as it is. Its laws say that more bytes never change an answer. So it does not matter how the
bytes are cut into chunks (`deliver_eq_drain`).
-/

namespace Krikos.Lib

structure Decoder (α ε : Type) where
  decode : Bytes → Except ε (Option α × Bytes)
  keeps : ∀ {b rest}, decode b = .ok (none, rest) → rest = b
  consumes : ∀ {b a rest}, decode b = .ok (some a, rest) → rest.length < b.length
  some_append : ∀ {b a rest} (c : Bytes), decode b = .ok (some a, rest) →
    decode (b ++ c) = .ok (some a, rest ++ c)
  error_append : ∀ {b e} (c : Bytes), decode b = .error e → decode (b ++ c) = .error e

namespace Decoder
variable {α ε : Type} (d : Decoder α ε) {b c rest : Bytes} {a : α} {l : List α} {e : ε}

/-- Takes frames off the buffer until the decoder asks for more bytes. -/
def drain (src : Bytes) : Except ε (List α × Bytes) :=
  match h : d.decode src with
  | .error e => .error e
  | .ok (none, rest) => .ok ([], rest)
  | .ok (some a, rest) =>
    have : rest.length < src.length := d.consumes h
    match drain rest with
    | .error e => .error e
    | .ok (l, rest) => .ok (a :: l, rest)
termination_by src.length

/-- Appends the chunks to the buffer as they arrive and drains it after each one. -/
def deliver : Bytes → List Bytes → Except ε (List α × Bytes)
  | src, [] => .ok ([], src)
  | src, chunk :: chunks =>
    match d.drain (src ++ chunk) with
    | .error e => .error e
    | .ok (l, rest) =>
      match deliver rest chunks with
      | .error e => .error e
      | .ok (l', rest) => .ok (l ++ l', rest)

variable {d}

lemma drain_error (h : d.decode b = .error e) : d.drain b = .error e := by
  rw [drain]
  split
  · rename_i e' h'
    rw [h] at h'
    cases h'
    rfl
  · rename_i h'
    rw [h] at h'
    cases h'
  · rename_i h'
    rw [h] at h'
    cases h'

lemma drain_none (h : d.decode b = .ok (none, rest)) : d.drain b = .ok ([], b) := by
  rw [drain]
  split
  · rename_i h'
    rw [h] at h'
    cases h'
  · rename_i h'
    rw [d.keeps h']
  · rename_i h'
    rw [h] at h'
    cases h'

lemma drain_some (h : d.decode b = .ok (some a, rest)) : d.drain b =
      match d.drain rest with
      | .error e => .error e
      | .ok (l, rest) => .ok (a :: l, rest) := by
  rw [drain]
  split
  · rename_i h'
    rw [h] at h'
    cases h'
  · rename_i h'
    rw [h] at h'
    cases h'
  · rename_i h'
    rw [h] at h'
    cases h'
    rfl

/-- What a drained buffer leaves behind holds no complete frame. -/
lemma drain_rest (h : d.drain b = .ok (l, rest)) : d.decode rest = .ok (none, rest) := by
  fun_induction drain d b generalizing l with
  | case1 b e hd => cases h
  | case2 b rest' hd =>
    cases h
    rwa [← d.keeps hd] at hd
  | case3 b a rest' hd _ e hrec ih => cases h
  | case4 b a rest' hd _ l' rest'' hrec ih =>
    cases h
    exact ih hrec

/-- Draining a longer buffer first takes what a part of it gives. -/
lemma drain_append (c : Bytes) (h : d.drain b = .ok (l, rest)) : d.drain (b ++ c) =
      match d.drain (rest ++ c) with
      | .error e => .error e
      | .ok (l', rest') => .ok (l ++ l', rest') := by
  fun_induction drain d b generalizing l with
  | case1 b e hd => cases h
  | case2 b rest' hd =>
    cases h
    rw [d.keeps hd]
    cases d.drain (b ++ c) with
    | error e | ok r => rfl
  | case3 b a rest' hd _ e hrec ih => cases h
  | case4 b a rest' hd _ l' rest'' hrec ih =>
    cases h
    rw [drain_some (d.some_append c hd), ih hrec]
    cases d.drain (rest ++ c) with
    | error e | ok r => rfl

lemma drain_error_append (c : Bytes) (h : d.drain b = .error e) : d.drain (b ++ c) = .error e := by
  fun_induction drain d b with
  | case1 b e' hd =>
    cases h
    exact drain_error (d.error_append c hd)
  | case2 b rest' hd => cases h
  | case3 b a rest' hd _ e' hrec ih =>
    cases h
    rw [drain_some (d.some_append c hd), ih hrec]
  | case4 b a rest' hd _ l' rest'' hrec ih => cases h

/-- However the bytes are cut into chunks, the result is that of draining them at once. -/
lemma deliver_eq_drain (chunks : List Bytes) (h : d.decode b = .ok (none, b)) :
    d.deliver b chunks = d.drain (b ++ chunks.flatten) := by
  induction chunks generalizing b with
  | nil => rw [deliver, List.flatten_nil, List.append_nil, drain_none h]
  | cons chunk chunks ih =>
    rw [deliver, List.flatten_cons, ← List.append_assoc]
    cases hd : d.drain (b ++ chunk) with
    | error e => rw [drain_error_append _ hd]
    | ok r =>
      obtain ⟨l, rest⟩ := r
      rw [drain_append _ hd]
      simp only [ih (drain_rest hd)]

end Decoder
end Krikos.Lib
