import Krikos.Docs.Entry
import Krikos.Lib.Framing
import Krikos.Lib.Wire

/-!
# Docs.Codec

The limits of sync messages (`limits.rs`, `ranger.rs`) and the codec of the sync protocol
(`net/codec.rs`).

The decoder takes the frames of a stream apart however they are cut into chunks
(`Decoder.deliver_eq_drain`, `drain_frames`). The encoder writes the payload of a message at the
fifth byte of its buffer, so that only the first message in a buffer is framed
(`round_trip_iff`).
-/

namespace Krikos.Docs

open Lib List Wire Decoder

/-! ## Limits -/

def maxSyncMessageSize : Nat := 4 * 1024 * 1024

def maxSyncMessageParts : Nat := 1024

def maxEntriesPerSyncMessage : Nat := 2048

/-- "{resource} contains {actual} items or bytes, maximum is {maximum}" -/
structure LimitError where
  resource : String
  actual : Nat
  maximum : Nat
  deriving DecidableEq, Repr

namespace Message
variable {E K F : Type}

def usizeMax : Nat := 2 ^ 64 - 1

def partLen (part : MessagePart E K F) : Nat :=
  match part.values? with
  | some values => values.length
  | none => 0

variable (m : Message E K F)

/-- The number of entries, by `saturating_add`. -/
def entryCount : Nat :=
  m.parts.foldl (fun count part => min (count + partLen part) usizeMax) 0

def validateLimits : Except LimitError Unit :=
  if maxSyncMessageParts < m.parts.length then
    .error ⟨"sync message parts", m.parts.length, maxSyncMessageParts⟩
  else if maxEntriesPerSyncMessage < m.entryCount then
    .error ⟨"sync message entries", m.entryCount, maxEntriesPerSyncMessage⟩
  else .ok ()

lemma valueCount_eq : m.valueCount = (m.parts.map partLen).sum := by
  obtain ⟨parts⟩ := m
  induction parts with
  | nil => rfl
  | cons part parts ih =>
    simp only [valueCount, values] at ih ⊢
    cases part with
    | rangeFingerprint fp => simpa [partLen, MessagePart.values?, filterMap_cons] using ih
    | rangeItem item => simp [partLen, MessagePart.values?, ← ih]

lemma foldl_saturating (parts : List (MessagePart E K F)) (count : Nat) :
    parts.foldl (fun count part => min (count + partLen part) usizeMax) (min count usizeMax) =
      min (count + (parts.map partLen).sum) usizeMax := by
  induction parts generalizing count with
  | nil => rfl
  | cons part parts ih =>
    have hstep : min (min count usizeMax + partLen part) usizeMax =
        min (count + partLen part) usizeMax := by omega
    rw [foldl_cons, hstep, ih, map_cons, sum_cons, Nat.add_assoc]

lemma entryCount_eq : m.entryCount = min m.valueCount usizeMax := by
  have h := foldl_saturating m.parts 0
  rw [Nat.zero_min, Nat.zero_add, ← valueCount_eq] at h
  exact h

lemma validateLimits_eq_ok {m : Message E K F} : m.validateLimits = .ok () ↔
    m.parts.length ≤ maxSyncMessageParts ∧ m.valueCount ≤ maxEntriesPerSyncMessage := by
  have hcoun : maxEntriesPerSyncMessage < m.entryCount ↔
      maxEntriesPerSyncMessage < m.valueCount := by
    rw [entryCount_eq, maxEntriesPerSyncMessage, usizeMax]
    omega
  unfold validateLimits
  split
  · rename_i h
    exact iff_of_false nofun fun hc => absurd hc.1 (by omega)
  · rename_i hpar
    split
    · rename_i h
      exact iff_of_false nofun fun hc => absurd hc.2 (by rw [hcoun] at h; omega)
    · rename_i h
      rw [hcoun] at h
      exact iff_of_true rfl ⟨by omega, by omega⟩

end Message

/-! ## Messages of the protocol -/

abbrev ProtocolMessage := Message SignedEntry RecordIdentifier Bytes32

namespace Net

inductive AbortReason where
  | notFound
  | alreadySyncing
  | internalServerError
  deriving DecidableEq, Repr

inductive Message where
  /-- Sent by the dialing peer: the namespace to sync and the initial message. -/
  | init (ns : NamespaceId) (message : ProtocolMessage)
  | sync (message : ProtocolMessage)
  /-- Sent by the accepting peer to decline a request. -/
  | abort (reason : AbortReason)
  deriving DecidableEq

def Message.validateLimits : Message → Except LimitError Unit
  | .init _ message => message.validateLimits
  | .sync message => message.validateLimits
  | .abort _ => .ok ()

/-! ## The codec -/

/-- What the codec uses of postcard: `to_slice` with the size it needs, and `from_bytes`, which
ignores bytes after the value. -/
structure Postcard (M : Type) where
  toBytes : M → Bytes
  fromBytes : Bytes → Option M
  from_to : ∀ m, (toBytes m).length < 2 ^ 64 → fromBytes (toBytes m) = some m
  pos : ∀ m, 0 < (toBytes m).length
  length_le : ∀ {b m}, fromBytes b = some m → (toBytes m).length ≤ b.length

/-- A format that delimits itself, read from the front of a byte string. -/
def Postcard.ofWire {M : Type} (w : Wire M) (pos : ∀ m, 0 < (w.put m).length) : Postcard M where
  toBytes := w.put
  fromBytes b := (w.get b).map Prod.fst
  from_to := by
    intro m hm
    have h := w.get_put m [] hm
    rw [append_nil] at h
    rw [h, Option.map_some]
  pos := pos
  length_le := by
    intro b m h
    obtain ⟨⟨m', rest⟩, hget, hm⟩ := Option.map_eq_some_iff.mp h
    have hle := w.length_le hget
    rw [← hm]
    exact le_trans (Nat.le_add_right _ _) hle

/-! ## The format of messages -/

section

def recordIdentifierWire : Wire RecordIdentifier :=
  bytes.iso ⟨RecordIdentifier.mk, RecordIdentifier.bytes, fun _ => rfl, fun _ => rfl⟩

def recordWire : Wire Record :=
  (u64.pair ((fixed 32).pair u64)).iso
    ⟨fun x => ⟨x.1, x.2.1, x.2.2⟩, fun r => (r.len, r.hash, r.timestamp), fun _ => rfl,
      fun _ => rfl⟩

def entrySignatureWire : Wire EntrySignature :=
  ((fixed 64).pair (fixed 64)).iso
    ⟨fun x => ⟨x.1, x.2⟩, fun s => (s.authorSignature, s.namespaceSignature), fun _ => rfl,
      fun _ => rfl⟩

def entryWire : Wire Entry :=
  (recordIdentifierWire.pair recordWire).iso
    ⟨fun x => ⟨x.1, x.2⟩, fun e => (e.id, e.record), fun _ => rfl, fun _ => rfl⟩

def signedEntryWire : Wire SignedEntry :=
  (entrySignatureWire.pair entryWire).iso
    ⟨fun x => ⟨x.1, x.2⟩, fun e => (e.signature, e.entry), fun _ => rfl, fun _ => rfl⟩

def contentStatusEquiv : Fin 3 ≃ ContentStatus where
  toFun
    | 0 => .complete
    | 1 => .incomplete
    | 2 => .missing
  invFun
    | .complete => 0
    | .incomplete => 1
    | .missing => 2
  left_inv
    | 0 => rfl
    | 1 => rfl
    | 2 => rfl
  right_inv s := by cases s <;> rfl

def valueWire : Wire (SignedEntry × ContentStatus) :=
  signedEntryWire.pair ((number 4 3 three_tags).iso contentStatusEquiv)

lemma valueWire_pos (x : SignedEntry × ContentStatus) : 0 < (valueWire.put x).length := by
  apply pair_pos
  intro e
  have hsig := e.signature.authorSignature.property
  simp only [signedEntryWire, entrySignatureWire, iso, pair, fixed,
    Equiv.coe_fn_symm_mk, length_append]
  omega

def rangeWire : Wire (Range RecordIdentifier) :=
  (recordIdentifierWire.pair recordIdentifierWire).iso
    ⟨fun x => ⟨x.1, x.2⟩, fun r => (r.x, r.y), fun _ => rfl, fun _ => rfl⟩

def rangeFingerprintWire : Wire (RangeFingerprint RecordIdentifier Bytes32) :=
  (rangeWire.pair (fixed 32)).iso
    ⟨fun x => ⟨x.1, x.2⟩, fun fp => (fp.range, fp.fingerprint), fun _ => rfl, fun _ => rfl⟩

def rangeItemWire : Wire (RangeItem SignedEntry RecordIdentifier) :=
  (rangeWire.pair ((list valueWire valueWire_pos).pair bool)).iso
    ⟨fun x => ⟨x.1, x.2.1, x.2.2⟩, fun item => (item.range, item.values, item.haveLocal),
      fun _ => rfl, fun _ => rfl⟩

def PartPayload : Fin 2 → Type
  | 0 => RangeFingerprint RecordIdentifier Bytes32
  | 1 => RangeItem SignedEntry RecordIdentifier

def partPayloadWire : (i : Fin 2) → Wire (PartPayload i)
  | 0 => rangeFingerprintWire
  | 1 => rangeItemWire

def partEquiv : ((i : Fin 2) × PartPayload i) ≃ MessagePart SignedEntry RecordIdentifier Bytes32 where
  toFun
    | ⟨0, fp⟩ => .rangeFingerprint fp
    | ⟨1, item⟩ => .rangeItem item
  invFun
    | .rangeFingerprint fp => ⟨0, fp⟩
    | .rangeItem item => ⟨1, item⟩
  left_inv
    | ⟨0, _⟩ => rfl
    | ⟨1, _⟩ => rfl
  right_inv p := by cases p <;> rfl

def partWire : Wire (MessagePart SignedEntry RecordIdentifier Bytes32) :=
  (tagged two_tags partPayloadWire).iso partEquiv

lemma partWire_pos (p : MessagePart SignedEntry RecordIdentifier Bytes32) :
    0 < (partWire.put p).length := tagged_pos _ _ _

def protocolMessageWire : Wire ProtocolMessage :=
  (list partWire partWire_pos).iso
    ⟨Docs.Message.mk, Docs.Message.parts, fun _ => rfl, fun _ => rfl⟩

def abortReasonEquiv : Fin 3 ≃ AbortReason where
  toFun
    | 0 => .notFound
    | 1 => .alreadySyncing
    | 2 => .internalServerError
  invFun
    | .notFound => 0
    | .alreadySyncing => 1
    | .internalServerError => 2
  left_inv
    | 0 => rfl
    | 1 => rfl
    | 2 => rfl
  right_inv s := by cases s <;> rfl

def MessagePayload : Fin 3 → Type
  | 0 => NamespaceId × ProtocolMessage
  | 1 => ProtocolMessage
  | 2 => AbortReason

def messagePayloadWire : (i : Fin 3) → Wire (MessagePayload i)
  | 0 => (fixed 32).pair protocolMessageWire
  | 1 => protocolMessageWire
  | 2 => (number 4 3 three_tags).iso abortReasonEquiv

def messageEquiv : ((i : Fin 3) × MessagePayload i) ≃ Message where
  toFun
    | ⟨0, ns, message⟩ => .init ns message
    | ⟨1, message⟩ => .sync message
    | ⟨2, reason⟩ => .abort reason
  invFun
    | .init ns message => ⟨0, ns, message⟩
    | .sync message => ⟨1, message⟩
    | .abort reason => ⟨2, reason⟩
  left_inv
    | ⟨0, _, _⟩ => rfl
    | ⟨1, _⟩ => rfl
    | ⟨2, _⟩ => rfl
  right_inv m := by cases m <;> rfl

def messageWire : Wire Message := (tagged three_tags messagePayloadWire).iso messageEquiv

def messageFormat : Postcard Message := .ofWire messageWire fun _ => tagged_pos _ _ _

end

inductive CodecError where
  | limit (e : LimitError)
  /-- "received message that is too large: {}" -/
  | receivedTooLarge (frameLen : Nat)
  /-- "attempting to send message that is too large {}" -/
  | sendingTooLarge (len : Nat)
  | postcard
  deriving DecidableEq, Repr

namespace SyncCodec
variable (pc : Postcard Message)

def decode (src : Bytes) : Except CodecError (Option Message × Bytes) :=
  if src.length < 4 then .ok (none, src)
  else
    let frameLen := ofBeBytes (src.take 4)
    if maxSyncMessageSize < frameLen then .error (.receivedTooLarge frameLen)
    else if src.length < 4 + frameLen then .ok (none, src)
    else
      match pc.fromBytes ((src.drop 4).take frameLen) with
      | none => .error .postcard
      | some message =>
        match message.validateLimits with
        | .error e => .error (.limit e)
        | .ok () => .ok (some message, src.drop (4 + frameLen))

/-- `postcard::to_slice`: the bytes replace the front of the slice, if they fit. -/
def toSlice (item : Message) (slice : Bytes) : Option Bytes :=
  let bytes := pc.toBytes item
  if slice.length < bytes.length then none else some (bytes ++ slice.drop bytes.length)

/-- Appends the length of a payload and makes room for the payload behind the first four bytes. -/
def reserve (len : Nat) (dst : Bytes) : Bytes :=
  let dst := dst ++ beBytes 4 len
  if dst.length < 4 + len then dst ++ replicate (4 + len - dst.length) 0 else dst

def encode (item : Message) (dst : Bytes) : Except CodecError Bytes :=
  match item.validateLimits with
  | .error e => .error (.limit e)
  | .ok () =>
    let len := (pc.toBytes item).length
    if maxSyncMessageSize < len then .error (.sendingTooLarge len)
    else
      let dst := reserve len dst
      -- the slice starts at the fifth byte of the buffer, not behind the length
      match toSlice pc item (dst.drop 4) with
      | none => .error .postcard
      | some bytes => .ok (dst.take 4 ++ bytes)

def encodeAll : List Message → Bytes → Except CodecError Bytes
  | [], dst => .ok dst
  | item :: items, dst =>
    match encode pc item dst with
    | .error e => .error e
    | .ok dst => encodeAll items dst

def frame (item : Message) : Bytes := beBytes 4 (pc.toBytes item).length ++ pc.toBytes item

variable {pc} {b c buf rest : Bytes} {m : Message} {ms : List Message}

/-! ## Decoding a stream -/

lemma decode_some (h : decode pc b = .ok (some m, rest)) :
    4 ≤ b.length ∧ 4 + ofBeBytes (b.take 4) ≤ b.length ∧
      pc.fromBytes ((b.drop 4).take (ofBeBytes (b.take 4))) = some m ∧
      m.validateLimits = .ok () ∧ rest = b.drop (4 + ofBeBytes (b.take 4)) := by
  revert h
  fun_cases decode pc b with
  | case6 hfour _ _ hframe m' hm hvalid =>
    rintro ⟨⟩
    exact ⟨by omega, by omega, hm, hvalid, rfl⟩
  | _ => nofun

lemma decode_none (h : decode pc b = .ok (none, rest)) : rest = b := by
  revert h
  fun_cases decode pc b with
  | case1 | case3 =>
    rintro ⟨⟩
    rfl
  | _ => nofun

lemma decode_append (c : Bytes) (h : decode pc b ≠ .ok (none, b)) : decode pc (b ++ c) =
      match decode pc b with
      | .error e => .error e
      | .ok (o, rest) => .ok (o, rest ++ c) := by
  have hfour : 4 ≤ b.length := by
    by_contra hlt
    exact h (by rw [decode, if_pos (by omega)])
  have htake : (b ++ c).take 4 = b.take 4 := take_append_of_le_length hfour
  have hlen : (b ++ c).length = b.length + c.length := length_append
  by_cases hsize : maxSyncMessageSize < ofBeBytes (b.take 4)
  · simp only [decode, htake]
    rw [if_neg (by omega), if_pos hsize, if_neg (by omega), if_pos hsize]
  · have hframe : 4 + ofBeBytes (b.take 4) ≤ b.length := by
      by_contra hlt
      refine h ?_
      simp only [decode]
      rw [if_neg (by omega), if_neg hsize, if_pos (by omega)]
    have hpay : ((b ++ c).drop 4).take (ofBeBytes (b.take 4)) =
        (b.drop 4).take (ofBeBytes (b.take 4)) := by
      rw [drop_append_of_le_length hfour]
      exact take_append_of_le_length (by rw [length_drop]; omega)
    have hrest : (b ++ c).drop (4 + ofBeBytes (b.take 4)) =
        b.drop (4 + ofBeBytes (b.take 4)) ++ c := drop_append_of_le_length hframe
    simp only [decode, htake]
    rw [if_neg (by omega), if_neg hsize, if_neg (by omega), if_neg (by omega), if_neg hsize,
      if_neg (by omega), hpay, hrest]
    cases pc.fromBytes ((b.drop 4).take (ofBeBytes (b.take 4))) with
    | none => rfl
    | some m =>
      simp only
      cases m.validateLimits with
      | error e | ok u => rfl

/-- The codec as it is used on a stream. -/
def decoder (pc : Postcard Message) : Decoder Message CodecError where
  decode := decode pc
  keeps := decode_none
  consumes := by
    intro b m rest h
    obtain ⟨hfour, hframe, -, -, rfl⟩ := decode_some h
    rw [length_drop]
    omega
  some_append := by
    intro b m rest c h
    rw [decode_append c (by rw [h]; nofun), h]
  error_append := by
    intro b e c h
    rw [decode_append c (by rw [h]; nofun), h]

lemma decode_frame (hvalid : m.validateLimits = .ok ())
    (hsize : (pc.toBytes m).length ≤ maxSyncMessageSize) (c : Bytes) :
    decode pc (frame pc m ++ c) = .ok (some m, c) := by
  have hmax : maxSyncMessageSize < 256 ^ 4 := by decide
  have htake : (frame pc m ++ c).take 4 = beBytes 4 (pc.toBytes m).length := by
    rw [frame, append_assoc]
    exact take_left' (length_beBytes _ _)
  have hlen : ofBeBytes ((frame pc m ++ c).take 4) = (pc.toBytes m).length := by
    rw [htake, ofBeBytes_beBytes (by omega)]
  have hdrop : (frame pc m ++ c).drop 4 = pc.toBytes m ++ c := by
    rw [frame, append_assoc]
    exact drop_left' (length_beBytes _ _)
  have htot : (frame pc m ++ c).length = 4 + (pc.toBytes m).length + c.length := by
    simp [frame, Nat.add_assoc]
  have hrest : (frame pc m ++ c).drop (4 + (pc.toBytes m).length) = c := by
    rw [← drop_drop, hdrop, drop_left]
  simp only [decode, hlen]
  rw [if_neg (by omega), if_neg (by omega), if_neg (by omega), hdrop, take_left, hrest,
    pc.from_to m (by rw [maxSyncMessageSize] at hsize; omega)]
  simp only [hvalid]

lemma drain_frames (h : ∀ m ∈ ms, m.validateLimits = .ok () ∧
    (pc.toBytes m).length ≤ maxSyncMessageSize) :
    (decoder pc).drain (ms.flatMap (frame pc)) = .ok (ms, []) := by
  induction ms with
  | nil =>
    have hnil : (decoder pc).decode [] = .ok (none, []) := rfl
    exact drain_none hnil
  | cons m ms ih =>
    obtain ⟨hm, hms⟩ := forall_mem_cons.mp h
    have hfirst : (decoder pc).decode (frame pc m ++ ms.flatMap (frame pc)) =
        .ok (some m, ms.flatMap (frame pc)) := decode_frame hm.1 hm.2 _
    rw [flatMap_cons, drain_some hfirst, ih hms]

lemma drain_length (h : (decoder pc).drain b = .ok (ms, rest)) :
    (ms.map fun m => 4 + (pc.toBytes m).length).sum + rest.length ≤ b.length := by
  fun_induction Decoder.drain (decoder pc) b generalizing ms with
  | case2 b rest' hd =>
    cases h
    rw [(decoder pc).keeps hd]
    simp
  | case4 b m rest' hd _ ms rest'' hrec ih =>
    cases h
    have hle := ih hrec
    obtain ⟨hfour, hframe, hm, -, rfl⟩ := decode_some hd
    have hpay := pc.length_le hm
    rw [length_take, length_drop] at hpay
    rw [length_drop] at hle
    rw [map_cons, sum_cons]
    omega
  | _ => cases h

/-! ## Encoding into a buffer -/

lemma length_reserve (len : Nat) (dst : Bytes) :
    (reserve len dst).length = max (dst.length + 4) (4 + len) := by
  simp only [reserve]
  split
  · rename_i h
    rw [length_append, length_beBytes] at h
    rw [length_append, length_append, length_beBytes, length_replicate]
    omega
  · rename_i h
    rw [length_append, length_beBytes] at h
    rw [length_append, length_beBytes]
    omega

lemma length_toSlice {slice bytes : Bytes} (h : toSlice pc m slice = some bytes) :
    bytes.length = slice.length := by
  simp only [toSlice] at h
  split at h
  · cases h
  · cases h
    rw [length_append, length_drop]
    omega

lemma encode_ok (h : encode pc m b = .ok buf) :
    m.validateLimits = .ok () ∧ (pc.toBytes m).length ≤ maxSyncMessageSize ∧
      buf.length = max (b.length + 4) (4 + (pc.toBytes m).length) := by
  revert h
  fun_cases encode pc m b with
  | case4 hvalid _ hsize _ bytes hbyt =>
    rintro ⟨⟩
    refine ⟨hvalid, by omega, ?_⟩
    rw [length_append, length_toSlice hbyt, length_take, length_drop, length_reserve]
    omega
  | _ => nofun

lemma encode_nil (hvalid : m.validateLimits = .ok ())
    (hsize : (pc.toBytes m).length ≤ maxSyncMessageSize) : encode pc m [] = .ok (frame pc m) := by
  have hpos := pc.pos m
  have hres : reserve (pc.toBytes m).length [] =
      beBytes 4 (pc.toBytes m).length ++ replicate (pc.toBytes m).length 0 := by
    simp [reserve, hpos]
  have hzer : (replicate (pc.toBytes m).length (0 : Byte)).drop (pc.toBytes m).length = [] :=
    drop_eq_nil_of_le (by simp)
  simp only [encode, hvalid, hres]
  rw [if_neg (by omega)]
  simp only [toSlice, drop_left' (length_beBytes 4 _), take_left' (length_beBytes 4 _),
    length_replicate, Nat.lt_irrefl, if_false, hzer, append_nil]
  rfl

/-- Behind another message the buffer gets shorter than the frames it should hold. -/
lemma encodeAll_length (h : encodeAll pc ms b = .ok buf) (hb : 0 < b.length) :
    buf.length ≤ b.length + (ms.map fun m => 4 + (pc.toBytes m).length).sum ∧
      (ms ≠ [] → buf.length < b.length + (ms.map fun m => 4 + (pc.toBytes m).length).sum) := by
  induction ms generalizing b with
  | nil =>
    cases h
    simp
  | cons m ms ih =>
    rw [encodeAll] at h
    split at h
    · cases h
    · rename_i b' hm
      obtain ⟨-, -, hlen⟩ := encode_ok hm
      have hpos := pc.pos m
      have hrec := (ih h (by omega)).1
      rw [map_cons, sum_cons]
      refine ⟨by omega, fun _ => by omega⟩

/-- Messages that were encoded into one buffer are decoded as they were, from any
chunks and with no bytes left, exactly if there is at most one of them. -/
theorem round_trip_iff (pc : Postcard Message) (ms : List Message) (buf : Bytes)
    (h : encodeAll pc ms [] = .ok buf) :
    (∀ chunks : List Bytes, chunks.flatten = buf →
      (decoder pc).deliver [] chunks = .ok (ms, [])) ↔ ms.length ≤ 1 := by
  have hdeliver : ∀ chunks : List Bytes, chunks.flatten = buf →
      (decoder pc).deliver [] chunks = (decoder pc).drain buf := by
    rintro chunks rfl
    exact deliver_eq_drain chunks rfl
  constructor
  · intro hall
    have hdrain := hall [buf] (by simp)
    rw [hdeliver [buf] (by simp)] at hdrain
    have hle := drain_length hdrain
    cases ms with
    | nil => simp
    | cons m ms =>
      rw [encodeAll] at h
      split at h
      · cases h
      · rename_i b' hm
        obtain ⟨-, -, hlen⟩ := encode_ok hm
        have hlt := (encodeAll_length h (by omega)).2
        rw [map_cons, sum_cons] at hle
        rw [length_nil] at hlen hle
        cases ms with
        | nil => simp
        | cons m' ms => exact absurd (hlt (by simp)) (by omega)
  · intro hlen chunks hchunks
    rw [hdeliver chunks hchunks]
    match ms, hlen with
    | [], _ =>
      cases h
      have hframes : (decoder pc).drain ([].flatMap (frame pc)) = .ok ([], []) :=
        drain_frames (by simp)
      exact hframes
    | [m], _ =>
      rw [encodeAll] at h
      split at h
      · cases h
      · rename_i b' hm
        cases h
        obtain ⟨hvalid, hsize, -⟩ := encode_ok hm
        rw [encode_nil hvalid hsize] at hm
        cases hm
        have hframes : (decoder pc).drain ([m].flatMap (frame pc)) = .ok ([m], []) :=
          drain_frames (by simpa using ⟨hvalid, hsize⟩)
        rwa [flatMap_singleton] at hframes

/-- A message of two bytes is decoded from its frame. -/
theorem round_trip_single : encodeAll messageFormat [.sync ⟨[]⟩] [] = .ok [0, 0, 0, 2, 1, 0] ∧
    ∀ chunks : List Bytes, chunks.flatten = [0, 0, 0, 2, 1, 0] →
      (decoder messageFormat).deliver [] chunks = .ok ([.sync ⟨[]⟩], []) :=
  ⟨by decide, (round_trip_iff messageFormat [.sync ⟨[]⟩] _ (by decide)).mpr (by decide)⟩

/-- The payload of the second message overwrites that of the first one, and the length of the
second one stays behind without a payload. -/
theorem round_trip_overwritten : encodeAll messageFormat [.sync ⟨[]⟩, .abort .notFound] [] =
        .ok [0, 0, 0, 2, 2, 0, 0, 0, 0, 2] ∧
      (decoder messageFormat).deliver [] [[0, 0, 0, 2, 2, 0, 0, 0, 0, 2]] =
        .ok ([.abort .notFound], [0, 0, 0, 2]) := by
  refine ⟨by decide, ?_⟩
  have hfirst : (decoder messageFormat).decode [0, 0, 0, 2, 2, 0, 0, 0, 0, 2] =
      .ok (some (.abort .notFound), [0, 0, 0, 2]) := by decide
  have hrest : (decoder messageFormat).decode [0, 0, 0, 2] = .ok (none, [0, 0, 0, 2]) := by decide
  have hdeliver : (decoder messageFormat).deliver [] [[0, 0, 0, 2, 2, 0, 0, 0, 0, 2]] =
      (decoder messageFormat).drain [0, 0, 0, 2, 2, 0, 0, 0, 0, 2] :=
    deliver_eq_drain _ rfl
  rw [hdeliver, drain_some hfirst, drain_none hrest]

end SyncCodec
end Net
end Krikos.Docs
