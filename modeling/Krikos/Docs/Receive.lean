import Krikos.Docs.Replica

/-!
# Docs.Receive

What bytes from a peer can do to a replica: a message is decoded and handled.

A message is handled without a panic if all its entries have identifiers with all their parts and
every range that is read has such ends, or equal ones; any other message panics
(`slices_syncProcessMessage`). The decoder does not check identifiers, so bytes can carry both
(`receive_no_panic_iff`).
-/

namespace Krikos.Docs

open Lib RangeEntry Replica Store List

def Net.Message.protocol : Net.Message → Option ProtocolMessage
  | .init _ message => some message
  | .sync message => some message
  | .abort _ => none

inductive ReceiveError where
  | codec (e : Net.CodecError)
  | insert (e : InsertError)
  deriving DecidableEq

/-- The bytes at the front of a buffer are decoded, and the message in them is handled. -/
def Replica.receive (pc : Net.Postcard Net.Message) (crypto : Crypto) (blake3 : Bytes → Bytes32)
    (info : ReplicaInfo) (s : FsStore) (src : Bytes) (fromPeer : PeerIdBytes) (now : U64)
    (state : SyncOutcome) : Except (Fault ReceiveError) (Option ProtocolMessage) :=
  match Net.SyncCodec.decode pc src with
  | .error e => .error (.error (.codec e))
  | .ok (none, _) => .ok none
  | .ok (some message, _) =>
    match message.protocol with
    | none => .ok none
    | some message =>
      match syncProcessMessage crypto blake3 info s message fromPeer now state with
      | .error (.error e) => .error (.error (.insert e))
      | .error (.panic p) => .error (.panic p)
      | .ok (_, _, reply) => .ok reply

/-- Every identifier that is taken apart has all its parts. -/
structure Handleable (m : ProtocolMessage) : Prop where
  values : ∀ v ∈ m.values, v.1.entry.id.WellFormed
  items : ∀ item ∈ m.parts.filterMap MessagePart.item?, item.haveLocal = false → Readable item.range
  fingerprints : ∀ fp ∈ m.parts.filterMap MessagePart.fingerprint?, Readable fp.range

/-! ## Storing values -/

section
variable (crypto : Crypto) (blake3 : Bytes → Bytes32) (ns : NamespaceId) (fromPeer : PeerIdBytes)
  (now : U64)

lemma put_ok (s : FsStore) (d : DocEntry) :
    ∃ s' outcome, (storeInstance blake3 ns).put s (d.signed ns) = .ok (s', outcome) := by
  by_cases hb : ∃ x ∈ stampsOf ns s, x.blocks d.stamp
  · exact ⟨_, _, put_of_blocked hb⟩
  · exact ⟨_, _, put_of_free hb⟩

lemma validateCb_ok (s : FsStore) {e : SignedEntry} (h : e.entry.id.WellFormed)
    (status : ContentStatus) : ∃ b, validateCb crypto ns fromPeer now s e status = .ok b ∧
      (b = true → ∃ d : DocEntry, e = d.signed ns) := by
  obtain ⟨ns', d, rfl⟩ := DocEntry.exists_signed h
  cases hr : validateEntry (ε := StoreError) crypto now ns (d.signed ns') (.sync fromPeer status) with
  | error f =>
    rw [validateEntry_signed] at hr
    cases hr
  | ok r =>
    simp only [validateCb, hr]
    cases r with
    | error e => exact ⟨false, rfl, nofun⟩
    | ok u =>
      obtain rfl := validateEntry_ok hr
      exact ⟨true, rfl, fun _ => ⟨d, rfl⟩⟩

lemma storeValues_ok (s : FsStore) {values : List (SignedEntry × ContentStatus)}
    (h : ∀ v ∈ values, v.1.entry.id.WellFormed) : ∃ s' log, storeValues (storeInstance blake3 ns)
      (validateCb crypto ns fromPeer now) s values = .ok (s', log) := by
  induction values generalizing s with
  | nil => exact ⟨s, [], rfl⟩
  | cons v values ih =>
    obtain ⟨hv, hval⟩ := forall_mem_cons.mp h
    obtain ⟨e, status⟩ := v
    obtain ⟨b, hb, hsig⟩ := validateCb_ok crypto ns fromPeer now s hv status
    cases b with
    | false =>
      simp only [storeValues, hb]
      exact ih s hval
    | true =>
      obtain ⟨d, rfl⟩ := hsig rfl
      obtain ⟨s₁, outcome, hput⟩ := put_ok blake3 ns s d
      obtain ⟨s₂, log, hrest⟩ := ih s₁ hval
      simp only [storeValues, hb, hput, hrest]
      cases outcome with
      | notInserted | inserted n => exact ⟨_, _, rfl⟩

end

/-! ## Panics -/

/-- A call that gives a value under a condition, and else slices out of bounds. -/
structure SlicesUnless {ε A : Type} (good : Prop) (call : Except (Fault ε) A) : Prop where
  ok : good → ∃ r, call = .ok r
  panic : ¬ good → call = .error (.panic .slice)

lemma SlicesUnless.seq {ε ε' A B : Type} {first : Except (Fault ε) A} {call : Except (Fault ε') B}
    {p q good : Prop} (h : SlicesUnless p first)
    (hok : p → ∀ r, first = .ok r → SlicesUnless q call)
    (herror : first = .error (.panic .slice) → call = .error (.panic .slice))
    (hgood : good ↔ p ∧ q) : SlicesUnless good call := by
  rw [hgood]
  by_cases hp : p
  · obtain ⟨r, hr⟩ := h.ok hp
    have hcall := hok hp r hr
    exact ⟨fun h => hcall.ok h.2, fun hnot => hcall.panic fun hq => hnot ⟨hp, hq⟩⟩
  · exact ⟨fun h => absurd h.1 hp, fun _ => herror (h.panic hp)⟩

lemma slicesUnless_true {ε A : Type} {call : Except (Fault ε) A} (h : ∃ r, call = .ok r) :
    SlicesUnless True call :=
  ⟨fun _ => h, fun hnot => absurd trivial hnot⟩

/-! ## Items -/

section
variable (crypto : Crypto) (blake3 : Bytes → Bytes32) (ns : NamespaceId) (fromPeer : PeerIdBytes)
  (now : U64) (cs : SignedEntry → ContentStatus)

def WellFormedValues (item : RangeItem SignedEntry RecordIdentifier) : Prop :=
  ∀ v ∈ item.values, v.1.entry.id.WellFormed

variable {item : RangeItem SignedEntry RecordIdentifier}

lemma slices_processItem (s : FsStore) (hval : WellFormedValues item) :
    SlicesUnless (item.haveLocal = false → Readable item.range)
      (processItem (F := Bytes32) (storeInstance blake3 ns)
        (validateCb crypto ns fromPeer now) cs s item) := by
  constructor
  · intro hran
    obtain ⟨s', log, hstor⟩ := storeValues_ok crypto blake3 ns fromPeer now s hval
    cases hloc : item.haveLocal with
    | true =>
      simp only [processItem, hloc, if_true, hstor]
      exact ⟨_, rfl⟩
    | false =>
      obtain ⟨l, hget, -⟩ := storeInstance_getRange blake3 ns s (hran hloc)
      simp only [processItem, hloc, Bool.false_eq_true, if_false, diff_eq cs hget, hstor]
      exact ⟨_, rfl⟩
  · intro hran
    obtain ⟨hloc, hnot⟩ := Classical.not_imp.mp hran
    have hget : (storeInstance blake3 ns).getRange s item.range = .error (.panic .slice) :=
      getRange_panic hnot
    simp only [processItem, hloc, Bool.false_eq_true, if_false, diff, hget]

variable {items : List (RangeItem SignedEntry RecordIdentifier)}

/-- An item that asks for a range without parts panics, at the latest when it is reached. -/
lemma slices_processItems (s : FsStore) (hval : ∀ item ∈ items, WellFormedValues item) :
    SlicesUnless (∀ item ∈ items, item.haveLocal = false → Readable item.range)
      (processItems (F := Bytes32) (storeInstance blake3 ns)
        (validateCb crypto ns fromPeer now) cs s items) := by
  induction items generalizing s with
  | nil => exact ⟨fun _ => ⟨_, rfl⟩, fun h => absurd (forall_mem_nil _) h⟩
  | cons item items ih =>
    obtain ⟨hv, hvs⟩ := forall_mem_cons.mp hval
    refine (slices_processItem crypto blake3 ns fromPeer now cs s hv).seq ?_ ?_ forall_mem_cons
    · rintro - ⟨s₁, log, out⟩ hitem
      refine (ih s₁ hvs).seq (fun _ r hrest => slicesUnless_true ?_) ?_ (and_iff_left trivial).symm
      · simp only [processItems, hitem, hrest]
        exact ⟨_, rfl⟩
      · intro hrest
        simp only [processItems, hitem, hrest]
    · intro hitem
      simp only [processItems, hitem]

end

/-! ## Fingerprints -/

section
variable (blake3 : Bytes → Bytes32) (ns : NamespaceId) (cs : SignedEntry → ContentStatus)
variable {r : Range RecordIdentifier}

/-- The halves of a range that can be read can be read: their ends are keys of stored entries or
ends of the range. -/
lemma readable_halves (hr : Readable r) {f p : RecordIdentifier} (hf : f.WellFormed)
    (hp : p.WellFormed) : Readable (halves r f p).1 ∧ Readable (halves r f p).2 := by
  unfold halves
  split
  · exact ⟨.inr ⟨hf, hp⟩, .inr ⟨hp, hf⟩⟩
  · rename_i hall
    cases hr with
    | inl heq => exact absurd (Range.isAll_iff.mpr heq) hall
    | inr hwf => exact ⟨.inr ⟨hwf.1, hp⟩, .inr ⟨hp, hwf.2⟩⟩

lemma chunkPart_readable (s : FsStore) (hr : Readable r) :
    ∃ q, chunkPart (storeInstance blake3 ns) SyncConfig.default cs s r = .ok q := by
  obtain ⟨l, hget, -⟩ := storeInstance_getRange blake3 ns s hr
  obtain ⟨fp, hfp⟩ := storeInstance_getFingerprint blake3 ns s hr
  exact ⟨_, chunkPart_eq hget hfp⟩

variable {fp : RangeFingerprint RecordIdentifier Bytes32}

lemma slices_processFingerprint (s : FsStore) : SlicesUnless (Readable fp.range)
    (processFingerprint (storeInstance blake3 ns) SyncConfig.default cs s fp) := by
  obtain ⟨r, fp⟩ := fp
  constructor
  · intro hr
    obtain ⟨l, hget, hl⟩ := storeInstance_getRange blake3 ns s hr
    obtain ⟨localFp, hfp⟩ := storeInstance_getFingerprint blake3 ns s hr
    rw [processFingerprint_eq cs fp hfp hget]
    split
    · exact ⟨_, rfl⟩
    · split
      · exact ⟨_, rfl⟩
      · rename_i hspl
        obtain ⟨f, p, hmid⟩ := exists_middle r (show 2 ≤ l.length by omega)
        have hf := wellFormed_of_mem_entriesOf ((hl.2 f).mp hmid.mem_first).1
        have hp := wellFormed_of_mem_entriesOf ((hl.2 p).mp hmid.mem_mid).1
        obtain ⟨h₁, h₂⟩ := readable_halves hr hf hp
        obtain ⟨q₁, hq₁⟩ := chunkPart_readable blake3 ns cs s h₁
        obtain ⟨q₂, hq₂⟩ := chunkPart_readable blake3 ns cs s h₂
        rw [recurse_eq hmid hl.1 hget]
        split
        · exact ⟨_, chunkParts_pair hq₂ hq₁⟩
        · exact ⟨_, chunkParts_pair hq₁ hq₂⟩
  · intro hr
    have hfp : (storeInstance blake3 ns).getFingerprint s r = .error (.panic .slice) :=
      getFingerprint_panic hr
    simp only [processFingerprint, hfp]

variable {fps : List (RangeFingerprint RecordIdentifier Bytes32)}

lemma slices_processFingerprints (s : FsStore) : SlicesUnless (∀ fp ∈ fps, Readable fp.range)
      (processFingerprints (storeInstance blake3 ns) SyncConfig.default cs s fps) := by
  induction fps with
  | nil => exact ⟨fun _ => ⟨_, rfl⟩, fun h => absurd (forall_mem_nil _) h⟩
  | cons fp fps ih =>
    refine (slices_processFingerprint blake3 ns cs s).seq ?_ ?_ forall_mem_cons
    · intro _ out hout
      refine ih.seq (fun _ r hrest => slicesUnless_true ?_) ?_ (and_iff_left trivial).symm
      · simp only [processFingerprints, hout, hrest]
        exact ⟨_, rfl⟩
      · intro hrest
        simp only [processFingerprints, hout, hrest]
    · intro hout
      simp only [processFingerprints, hout]

end

/-! ## Messages -/

variable {values : List (SignedEntry × ContentStatus)}

lemma slices_receiveHeads {ε : Type} (heads : AuthorHeads) :
    SlicesUnless (∀ v ∈ values, v.1.entry.id.WellFormed) (receiveHeads (ε := ε) heads values) := by
  induction values generalizing heads with
  | nil => exact ⟨fun _ => ⟨_, rfl⟩, fun h => absurd (forall_mem_nil _) h⟩
  | cons v values ih =>
    rw [forall_mem_cons]
    by_cases hv : v.1.entry.id.WellFormed
    · obtain ⟨⟨signature, ⟨id, record⟩⟩, status⟩ := v
      obtain ⟨ns, author, key, rfl⟩ := RecordIdentifier.exists_new hv
      simp only [receiveHeads, RecordIdentifier.author_new, hv, true_and]
      exact ih _
    · refine ⟨fun h => absurd h.1 hv, fun _ => ?_⟩
      simp only [receiveHeads, RecordIdentifier.author_of_not_wellFormed hv]

lemma mem_values {m : ProtocolMessage} {item : RangeItem SignedEntry RecordIdentifier}
    (hitem : item ∈ m.parts.filterMap MessagePart.item?) {v : SignedEntry × ContentStatus}
    (hv : v ∈ item.values) : v ∈ m.values := by
  obtain ⟨part, hpart, hi⟩ := mem_filterMap.mp hitem
  cases part with
  | rangeFingerprint fp => cases hi
  | rangeItem item' =>
    cases hi
    exact mem_flatten.mpr ⟨_, mem_filterMap.mpr ⟨_, hpart, rfl⟩, hv⟩

section
variable (crypto : Crypto) (blake3 : Bytes → Bytes32) (info : ReplicaInfo) (s : FsStore)
  (fromPeer : PeerIdBytes) (now : U64) (state : SyncOutcome)

lemma slices_syncProcessMessage {m : ProtocolMessage} (hopen : info.closed = false) :
    SlicesUnless (Handleable m) (syncProcessMessage crypto blake3 info s m fromPeer now state) := by
  have hiff : Handleable m ↔ (∀ v ∈ m.values, v.1.entry.id.WellFormed) ∧
      (∀ item ∈ m.parts.filterMap MessagePart.item?, item.haveLocal = false → Readable item.range) ∧
      ∀ fp ∈ m.parts.filterMap MessagePart.fingerprint?, Readable fp.range :=
    ⟨fun h => ⟨h.values, h.items, h.fingerprints⟩, fun h => ⟨h.1, h.2.1, h.2.2⟩⟩
  refine (slices_receiveHeads (ε := InsertError) state.headsReceived).seq
    (fun hval heads hheads => ?_) ?_ hiff
  · refine (slices_processItems crypto blake3 (info.capability.id crypto) fromPeer now
      (contentStatus info) s fun item hitem v hv => hval v (mem_values hitem hv)).seq
        ?_ ?_ Iff.rfl
    · rintro - ⟨s₁, log, out⟩ hitems
      refine (slices_processFingerprints blake3 (info.capability.id crypto) (contentStatus info)
        s₁).seq (fun _ out' hfps => slicesUnless_true ?_) ?_ (and_iff_left trivial).symm
      · simp only [syncProcessMessage, hopen, Bool.false_eq_true, if_false, hheads, processMessage,
          hitems, hfps]
        cases out ++ out' with
        | nil | cons part parts => exact ⟨_, rfl⟩
      · intro hfps
        simp only [syncProcessMessage, hopen, Bool.false_eq_true, if_false, hheads, processMessage,
          hitems, hfps]
        rfl
    · intro hitems
      simp only [syncProcessMessage, hopen, Bool.false_eq_true, if_false, hheads, processMessage,
        hitems]
      rfl
  · intro hheads
    simp only [syncProcessMessage, hopen, Bool.false_eq_true, if_false, hheads]

/-- Bytes from a peer are answered with a value or an error, and not with a panic,
exactly if the replica is closed or every identifier that handling the message takes apart has all
its parts. -/
theorem receive_no_panic_iff (pc : Net.Postcard Net.Message) (src : Bytes) :
    (∀ p, receive pc crypto blake3 info s src fromPeer now state ≠ .error (.panic p)) ↔
      ∀ message rest m, Net.SyncCodec.decode pc src = .ok (some message, rest) →
        message.protocol = some m → info.closed = true ∨ Handleable m := by
  unfold receive
  cases hdecode : Net.SyncCodec.decode pc src with
  | error e => exact iff_of_true nofun nofun
  | ok r =>
    obtain ⟨message, rest⟩ := r
    cases message with
    | none => exact iff_of_true nofun nofun
    | some message =>
      cases hmessage : message.protocol with
      | none =>
        refine iff_of_true (by simp only [hmessage]; nofun) ?_
        rintro message' rest' m ⟨⟩ hm
        rw [hmessage] at hm
        cases hm
      | some m =>
        refine Iff.trans (b := info.closed = true ∨ Handleable m) ?_
          ⟨?_, fun hall => hall message rest m rfl hmessage⟩
        rotate_left
        · rintro hm message' rest' m' ⟨⟩ hm'
          rw [hmessage] at hm'
          cases hm'
          exact hm
        simp only [hmessage]
        cases hclosed : info.closed with
        | true =>
          have hrun : syncProcessMessage crypto blake3 info s m fromPeer now state =
              .error (.error .closed) := by
            simp only [syncProcessMessage, hclosed, if_true]
          rw [hrun]
          exact iff_of_true nofun (.inl rfl)
        | false =>
          have hslices := slices_syncProcessMessage crypto blake3 info s fromPeer now state
            (m := m) hclosed
          by_cases hm : Handleable m
          · obtain ⟨r, hr⟩ := hslices.ok hm
            rw [hr]
            exact iff_of_true nofun (.inr hm)
          · rw [hslices.panic hm]
            refine iff_of_false (fun hc => hc .slice rfl) ?_
            rintro (hc | hc)
            · cases hc
            · exact hm hc

end

/-- A frame with a fingerprint whose range goes from the empty identifier to an identifier of one
byte. -/
def shortRangeFrame : Bytes :=
  [0, 0, 0, 38, 1, 1, 0, 0, 1, 1] ++ replicate 32 0

/-- The frame decodes to a sync message, and handling it slices outside of an identifier. -/
theorem receive_short_range_panics : Net.SyncCodec.decode Net.messageFormat shortRangeFrame =
        .ok (some (.sync ⟨[.rangeFingerprint ⟨⟨⟨[]⟩, ⟨[1]⟩⟩, .zero 32⟩]⟩), []) ∧
      receive Net.messageFormat .plain (fun _ => .zero 32) ⟨.read (.zero 32), none, false⟩
        .new shortRangeFrame (.zero 32) 0 ⟨.empty, 0, 0⟩ = .error (.panic .slice) := by
  decide

end Krikos.Docs
