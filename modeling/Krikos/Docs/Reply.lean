import Krikos.Docs.Codec
import Krikos.Docs.Merge

/-!
# Docs.Reply

How large the reply to a sync message is.

The number of parts and entries of a reply follows from the message and what the store holds when
each part is handled (`processMessage_load`): an item is answered with all entries that the peer
lacks, a fingerprint that is anchored with all entries of its range, and one that is split with two
parts. Nothing bounds these by the limits on messages, so a reply is within the limits exactly if
these sums are (`reply_within_limits_iff`).
-/

namespace Krikos.Docs

open RangeEntry Lib DocEntry List MessagePart SyncConfig Net.SyncCodec

/-! ## Parts and entries -/

/-- The number of parts, and of the entries they carry. -/
def load {E K F : Type} (parts : List (MessagePart E K F)) : Nat × Nat :=
  (parts.length, (parts.map Message.partLen).sum)

lemma load_append {E K F : Type} (a b : List (MessagePart E K F)) :
    load (a ++ b) = load a + load b := by
  simp [load]

lemma load_cons {E K F : Type} (p : MessagePart E K F) (ps : List (MessagePart E K F)) :
    load (p :: ps) = (1, Message.partLen p) + load ps := by
  rw [← singleton_append, load_append]
  rfl

lemma validateLimits_iff_load {E K F : Type} {m : Message E K F} : m.validateLimits = .ok () ↔
    load m.parts ≤ (maxSyncMessageParts, maxEntriesPerSyncMessage) := by
  rw [Message.validateLimits_eq_ok, Message.valueCount_eq]
  rfl

namespace Store
variable {S E K V F ε : Type} [RangeEntry E K V] [LinearOrder K] {ops : Store S E K V F ε}
  {entries : S → Set E} {cs : E → ContentStatus} {out : List (MessagePart E K F)}

noncomputable def held (A : Set E) (r : Range K) : Nat :=
  {e ∈ A | r.contains (key e) = true}.ncard

/-- What a fingerprint is answered with: nothing if it matches, the entries of the range if they
are at most one or the peer has none, and two halves otherwise. -/
noncomputable def fingerprintLoad [Fingerprint F] (ops : Store S E K V F ε) (entries : S → Set E)
    (s : S) (fp : RangeFingerprint K F) : Nat × Nat :=
  open Classical in
  let n := held (entries s) fp.range
  if ops.getFingerprint s fp.range = .ok fp.fingerprint then 0
  else if n ≤ 1 ∨ fp.fingerprint = Fingerprint.empty then (1, n)
  -- a half with one entry is sent as it is
  else (2, if n = 2 then 2 else if n = 3 then 1 else 0)

section
variable [LE V] [DecidableLE V]

/-- The number of entries in the range of an item that the peer lacks. -/
noncomputable def missing (A : Set E) (item : RangeItem E K) : Nat :=
  {e ∈ A | item.range.contains (key e) = true ∧ wanted item.values e = true}.ncard

noncomputable def itemLoad (A : Set E) (item : RangeItem E K) : Nat × Nat :=
  if item.haveLocal = true ∨ missing A item = 0 then 0 else (1, missing A item)

/-- What items are answered with, each on the store that has the values accepted before it. -/
noncomputable def itemsLoad (ops : Store S E K V F ε) (entries : S → Set E)
    (validateCb : S → E → ContentStatus → Except (Fault ε) Bool) :
    S → List (RangeItem E K) → Nat × Nat
  | _, [] => 0
  | s, item :: rest =>
    itemLoad (entries s) item +
      itemsLoad ops entries validateCb (valuesLeft ops validateCb s item.values) rest

/-- The fingerprints are answered on the store that has all accepted values. -/
noncomputable def replyLoad [Fingerprint F] (ops : Store S E K V F ε) (entries : S → Set E)
    (validateCb : S → E → ContentStatus → Except (Fault ε) Bool) (s : S) (m : Message E K F) :
    Nat × Nat :=
  let items := m.parts.filterMap item?
  let fps := m.parts.filterMap fingerprint?
  let after := items.foldl (fun s item => valuesLeft ops validateCb s item.values) s
  itemsLoad ops entries validateCb s items + (fps.map (fingerprintLoad ops entries after)).sum

end

/-! ## The parts of a reply -/

section
variable {s : S} {r : Range K} {l : List E}

lemma ncard_eq_length {A : Set E} (hl : l.Nodup) (h : ∀ e, e ∈ A ↔ e ∈ l) : A.ncard = l.length := by
  classical
  have hA : A = (l.toFinset : Set E) := by
    apply Set.ext
    intro e
    rw [h, coe_toFinset]
    rfl
  rw [hA, Set.ncard_coe_finset, toFinset_card_of_nodup hl]

lemma held_eq (hl : Lists (entries s) r l) : held (entries s) r = l.length :=
  ncard_eq_length hl.nodup fun e => (hl.2 e).symm

omit [LinearOrder K] in
lemma partLen_request : Message.partLen (request cs r l : MessagePart E K F) = l.length := by
  simp [request, Message.partLen, values?]

omit [LinearOrder K] in
lemma partLen_chunk (fp : F) :
    Message.partLen (chunk cs r l fp) = if 1 < l.length then 0 else l.length := by
  unfold chunk
  split
  · rfl
  · exact partLen_request

lemma recurse_load (R : ReadsRanges ops entries) (hl : Lists (entries s) r l)
    (hget : ops.getRange s r = .ok (l.map .ok)) (htwo : 2 ≤ l.length)
    (h : recurse ops default cs s r l.length = .ok out) :
    load out = (2, if l.length = 2 then 2 else if l.length = 3 then 1 else 0) := by
  obtain ⟨f, p, hmid⟩ := exists_middle r htwo
  rw [recurse_eq hmid hl.1 hget] at h
  -- the chunks come in either order
  split at h <;> obtain ⟨qa, qb, ha, hb, rfl⟩ := chunkParts_pair_ok h
  on_goal 1 =>
    obtain ⟨l₂, fp₂, -, -, hl₂, rfl⟩ := chunkPart_ok R ha
    obtain ⟨l₁, fp₁, -, -, hl₁, rfl⟩ := chunkPart_ok R hb
  on_goal 2 =>
    obtain ⟨l₁, fp₁, -, -, hl₁, rfl⟩ := chunkPart_ok R ha
    obtain ⟨l₂, fp₂, -, -, hl₂, rfl⟩ := chunkPart_ok R hb
  all_goals
    rw [load_cons, load_cons, partLen_chunk, partLen_chunk, hmid.length_fst hl hl₁,
      hmid.length_snd hl hl₂]
    simp only [load, length_nil, map_nil, sum_nil, Prod.mk_add_mk, Prod.mk.injEq]
    grind

variable [Fingerprint F] [DecidableEq F]

lemma processFingerprint_load (R : ReadsRanges ops entries) {fp : RangeFingerprint K F}
    (h : processFingerprint ops default cs s fp = .ok out) :
    load out = fingerprintLoad ops entries s fp := by
  obtain ⟨r, fp⟩ := fp
  cases hfp : ops.getFingerprint s r with
  | error f => simp [processFingerprint, hfp] at h
  | ok localFp =>
    by_cases hmat : localFp = fp
    · simp only [processFingerprint, hfp, hmat, if_true] at h
      cases h
      simp only [fingerprintLoad, hfp, hmat, if_true]
      rfl
    · have hne : ops.getFingerprint s r ≠ .ok fp := by
        rw [hfp]
        exact fun hc => hmat (Except.ok.inj hc)
      cases hget : ops.getRange s r with
      | error f => simp [processFingerprint, getRangeLen, hfp, hget, hmat] at h
      | ok it =>
        obtain ⟨l, rfl, hl⟩ := R hget
        rw [processFingerprint_eq cs fp hfp hget, if_neg hmat] at h
        simp only [fingerprintLoad, held_eq hl]
        rw [if_neg hne]
        split at h
        · rename_i hanc
          cases h
          rw [if_pos hanc, load_cons, partLen_request]
          rfl
        · rename_i hspl
          rw [if_neg hspl]
          exact recurse_load R hl hget (by omega) h

lemma processFingerprints_load (R : ReadsRanges ops entries) {fps : List (RangeFingerprint K F)}
    (h : processFingerprints ops default cs s fps = .ok out) :
    load out = (fps.map (fingerprintLoad ops entries s)).sum := by
  fun_induction processFingerprints ops default cs s fps generalizing out with
  | case1 =>
    cases h
    rfl
  | case4 fp fps out₁ h₁ out₂ h₂ ih =>
    cases h
    rw [load_append, processFingerprint_load R h₁, ih h₂, map_cons, sum_cons]
  | _ => cases h

end

section
variable [LE V] [DecidableLE V] {s s' : S}
  {validateCb : S → E → ContentStatus → Except (Fault ε) Bool} {log : List (E × ContentStatus)}

omit [LinearOrder K] in
lemma load_itemReply (r : Range K) (values : List (E × ContentStatus)) :
    load (itemReply r values : List (MessagePart E K F)) =
      if values.length = 0 then 0 else (1, values.length) := by
  cases values with
  | nil | cons v values => rfl

lemma processItem_load (R : ReadsRanges ops entries) {item : RangeItem E K}
    (h : processItem ops validateCb cs s item = .ok (s', log, out)) :
    load out = itemLoad (entries s) item ∧
      storeValues ops validateCb s item.values = .ok (s', log) := by
  rw [processItem] at h
  split at h
  · cases h
  · rename_i d hd
    split at h
    · cases h
    · rename_i s₁ log₁ hstor
      cases h
      refine ⟨?_, hstor⟩
      rw [load_itemReply]
      unfold itemLoad
      by_cases hloc : item.haveLocal = true
      · rw [if_pos hloc] at hd
        cases hd
        rw [if_pos (Or.inl hloc)]
        rfl
      · rw [if_neg hloc] at hd
        cases hget : ops.getRange s item.range with
        | error f => simp [diff, hget] at hd
        | ok it =>
          obtain ⟨l, rfl, hl⟩ := R hget
          rw [diff_eq cs hget] at hd
          cases hd
          have hmis : missing (entries s) item = (l.filter (wanted item.values)).length := by
            refine ncard_eq_length (hl.nodup.filter _) fun e => ?_
            rw [mem_filter, hl.2 e]
            exact ⟨fun he => ⟨⟨he.1, he.2.1⟩, he.2.2⟩, fun he => ⟨he.1.1, he.1.2, he.2⟩⟩
          simp only [hmis, length_map, hloc, false_or, Bool.false_eq_true]

lemma processItems_load (R : ReadsRanges ops entries) {items : List (RangeItem E K)}
    (h : processItems ops validateCb cs s items = .ok (s', log, out)) :
    load out = itemsLoad ops entries validateCb s items ∧
      s' = items.foldl (fun s item => valuesLeft ops validateCb s item.values) s := by
  fun_induction processItems ops validateCb cs s items generalizing log out with
  | case1 s =>
    cases h
    exact ⟨rfl, rfl⟩
  | case4 s item items s₁ log₁ out₁ h₁ s₂ log₂ out₂ h₂ ih =>
    cases h
    obtain ⟨hload, hstor⟩ := processItem_load R h₁
    obtain ⟨hload', haft⟩ := ih h₂
    rw [load_append, hload, hload', haft, itemsLoad, foldl_cons, valuesLeft_of_ok hstor]
    exact ⟨rfl, rfl⟩
  | _ => cases h

lemma processMessage_load [Fingerprint F] [DecidableEq F] (R : ReadsRanges ops entries)
    {m : Message E K F} {p : Processed S E K F}
    (h : ops.processMessage default validateCb cs s m = .ok p) : match p.reply with
    | none => replyLoad ops entries validateCb s m = 0
    | some reply => load reply.parts = replyLoad ops entries validateCb s m := by
  rw [processMessage] at h
  split at h
  · cases h
  · rename_i s₁ log₁ out₁ h₁
    split at h
    · cases h
    · rename_i out₂ h₂
      obtain ⟨hload, haft⟩ := processItems_load R h₁
      have hload' := processFingerprints_load R h₂
      have htot : replyLoad ops entries validateCb s m = load (out₁ ++ out₂) := by
        rw [load_append, hload, hload', haft]
        rfl
      rw [htot]
      split at h
      · rename_i hnil
        cases h
        rw [hnil]
        rfl
      · rename_i parts hpar
        cases h
        rfl

lemma replyLoad_fingerprint [Fingerprint F] (fp : RangeFingerprint K F) :
    replyLoad ops entries validateCb s ⟨[.rangeFingerprint fp]⟩ =
      fingerprintLoad ops entries s fp := by
  have hitems : [rangeFingerprint fp].filterMap (item? (E := E)) = [] := rfl
  have hfps : [rangeFingerprint fp].filterMap (fingerprint? (E := E)) =
      [fp] := rfl
  simp only [replyLoad, hitems, hfps, itemsLoad, foldl_nil, map_cons, map_nil, sum_singleton,
    zero_add]

lemma processMessage_request [Fingerprint F] [DecidableEq F]
    (validateCb : S → E → ContentStatus → Except (Fault ε) Bool) (cs : E → ContentStatus)
    {r : Range K} {l : List E} (hget : ops.getRange s r = .ok (l.map .ok)) (hl : l ≠ []) :
    ops.processMessage default validateCb cs s ⟨[.rangeItem ⟨r, [], false⟩]⟩ =
      .ok ⟨s, [], some ⟨[.rangeItem ⟨r, l.map fun e => (e, cs e), true⟩]⟩⟩ := by
  have hall : l.filter (wanted []) = l := filter_eq_self.mpr fun _ _ => rfl
  have hdiff : diff ops cs s ⟨r, [], false⟩ = .ok (l.map fun e => (e, cs e)) := by
    rw [diff_eq cs hget, hall]
  have hreply : (itemReply r (l.map fun e => (e, cs e)) : List (MessagePart E K F)) =
      [.rangeItem ⟨r, l.map fun e => (e, cs e), true⟩] := by
    cases l with
    | nil => exact absurd rfl hl
    | cons e l => rfl
  have hitem : processItem ops validateCb cs s ⟨r, [], false⟩ =
      .ok (s, [], [rangeItem ⟨r, l.map fun e => (e, cs e), true⟩]) := by
    rw [← hreply]
    simp only [processItem, Bool.false_eq_true, if_false, hdiff, storeValues]
  have hitems : [rangeItem ⟨r, [], false⟩].filterMap (item? (F := F)) =
      [(⟨r, [], false⟩ : RangeItem E K)] := rfl
  have hfps : [rangeItem (⟨r, [], false⟩ : RangeItem E K)].filterMap
      (fingerprint? (F := F)) = [] := rfl
  simp only [processMessage, hitems, hfps, processItems, hitem, processFingerprints, append_nil]

end
end Store

/-! ## Replies of the document store -/

variable {pc : Net.Postcard Net.Message} {m : ProtocolMessage}

lemma encode_of_valid (h : m.validateLimits = .ok ())
    (hlen : (pc.toBytes (.sync m)).length ≤ maxSyncMessageSize) (dst : Bytes) :
    ∃ buf, encode pc (.sync m) dst = .ok buf := by
  have hroom := length_reserve (pc.toBytes (.sync m)).length dst
  simp only [encode, Net.Message.validateLimits, h, if_neg (Nat.not_lt.mpr hlen),
    Net.SyncCodec.toSlice]
  rw [if_neg (by rw [length_drop]; omega)]
  exact ⟨_, rfl⟩

lemma encode_limit (h : m.validateLimits ≠ .ok ()) (dst : Bytes) :
    ∃ e, encode pc (.sync m) dst = .error (.limit e) := by
  cases hm : m.validateLimits with
  | error e => exact ⟨e, by simp only [encode, Net.Message.validateLimits, hm]⟩
  | ok u => exact absurd hm h

def everything : Range RecordIdentifier := ⟨.default, .default⟩

def DocEntry.ofAuthor (i : Nat) : DocEntry :=
  ⟨⟨beBytes 32 i, length_beBytes 32 i⟩, [1], ⟨1, .zero 32, 1⟩, ⟨.zero 64, .zero 64⟩⟩

lemma DocEntry.ofAuthor_author_inj {i j : Nat} (hi : i < 2 ^ 64) (hj : j < 2 ^ 64)
    (h : (ofAuthor i).author = (ofAuthor j).author) : i = j := by
  have hbyt : (ofAuthor i).author.val = (ofAuthor j).author.val := congrArg Subtype.val h
  simp only [ofAuthor] at hbyt
  have hboun : 2 ^ 64 ≤ 256 ^ 32 := by decide
  rw [← ofBeBytes_beBytes (k := 32) (lt_of_lt_of_le hi hboun), hbyt,
    ofBeBytes_beBytes (k := 32) (lt_of_lt_of_le hj hboun)]

section
variable {ns : NamespaceId} {s : FsStore} {n : Nat}

lemma exists_store_ofAuthor (blake3 : Bytes → Bytes32) (ns : NamespaceId) (hn : n ≤ 2 ^ 64) :
    ∃ s, (storeInstance blake3 ns).putAll .new (((range n).map ofAuthor).map (signed ns)) = .ok s ∧
      ∀ i < n, (ofAuthor i).stamp ∈ stampsOf ns s := by
  obtain ⟨s, hput, hs⟩ := stampsOf_putAll blake3 ns ((range n).map ofAuthor) .new
  have hemp : stampsOf ns .new = ∅ := by
    apply Set.eq_empty_of_forall_notMem
    rintro x ⟨d, hd, -⟩
    cases hd
  have hmem : ∀ x ∈ ((range n).map ofAuthor).map stamp,
      ∃ i < n, x = (ofAuthor i).stamp := by
    intro x hx
    simp only [map_map, mem_map, mem_range, Function.comp_apply] at hx
    obtain ⟨i, hi, rfl⟩ := hx
    exact ⟨i, hi, rfl⟩
  have heq : ∀ i < n, ∀ x ∈ ((range n).map ofAuthor).map stamp,
      x.author = (ofAuthor i).author → x = (ofAuthor i).stamp := by
    intro i hi x hx haut
    obtain ⟨j, hj, rfl⟩ := hmem x hx
    rw [ofAuthor_author_inj (by omega) (by omega) haut]
  refine ⟨s, hput, fun i hi => ?_⟩
  rw [hs, hemp]
  refine mem_settleAll ?_ ?_ ?_
  · exact mem_map_of_mem (mem_map_of_mem (mem_range.mpr hi))
  · rintro p (hp | hp) hbloc
    · cases hp
    · exact heq i hi p hp hbloc.2.1
  · intro e he hclear
    exact heq i hi e he hclear.1.symm

lemma le_length_of_stamps (hn : n ≤ 2 ^ 64) (hs : ∀ i < n, (ofAuthor i).stamp ∈ stampsOf ns s)
    {l : List SignedEntry} (hl : Lists (entriesOf ns s) everything l) : n ≤ l.length := by
  have hnod : ((range n).map fun i =>
      RecordIdentifier.new ns (ofAuthor i).author [1]).Nodup := by
    refine nodup_range.map_on ?_
    intro i hi j hj heq
    have haut := (RecordIdentifier.new_inj heq).2.1
    exact ofAuthor_author_inj (by have := mem_range.mp hi; omega)
      (by have := mem_range.mp hj; omega) haut
  have hsub : ((range n).map fun i =>
      RecordIdentifier.new ns (ofAuthor i).author [1]) ⊆ l.map key := by
    intro id hid
    obtain ⟨i, hi, rfl⟩ := mem_map.mp hid
    obtain ⟨d, hd, hstam⟩ := hs i (mem_range.mp hi)
    have haut : d.author = (ofAuthor i).author := congrArg Stamp.author hstam
    have hkey : d.key = [1] := congrArg Stamp.key hstam
    have hent : d.signed ns ∈ entriesOf ns s :=
      ⟨⟨ns, d.author, d.key⟩, d.value, hd, rfl, (intoEntry_value ns d).symm⟩
    have hin : d.signed ns ∈ l :=
      (hl.2 _).mpr ⟨hent, Range.contains_of_eq rfl⟩
    refine mem_map.mpr ⟨_, hin, ?_⟩
    show RecordIdentifier.new ns d.author d.key = _
    rw [haut, hkey]
  have hle := (hnod.subperm hsub).length_le
  simpa using hle

end

end Krikos.Docs
