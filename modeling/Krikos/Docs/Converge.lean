import Krikos.Lib.Bytes
import Krikos.Docs.SimpleStore

/-!
# Docs.Converge

Two peers that reconcile end with the same entries.

`U` is the union of what the peers hold at the start, and its maxima under `below` are what both
should hold at the end. While a message is in flight, every maximum is held by at least one peer,
and a maximum that is not yet held by both is covered by a part of the message (`Pending`).
Processing the message keeps this for the reply, and each part of the reply has a lower `rank`
than some part that it answers (`processMessage_spec`), so the exchange ends, and then nothing is
left to cover (`sync_converges`).
-/

namespace Krikos.Docs.Store

open RangeEntry Lib List SyncConfig MessagePart

variable {S E K V F ε : Type} [RangeEntry E K V] [LinearOrder K] [LinearOrder V] [Fingerprint F]
  [DecidableEq F]

/-! ## The exchange -/

/-- The loop of `sync_exchange_messages`: Bob processes a message, and Alice his reply. `none` if
the peers are not done after the given number of rounds. -/
def exchange (ops : Store S E K V F ε)
    (validateAlice validateBob : S → E → ContentStatus → Except (Fault ε) Bool)
    (statusAlice statusBob : E → ContentStatus) :
    Nat → S → S → Message E K F → Except (Fault ε) (Option (S × S))
  | 0, _, _, _ => .ok none
  | rounds + 1, alice, bob, msg =>
    match ops.processMessage default validateBob statusBob bob msg with
    | .error f => .error f
    | .ok ⟨bob, _, none⟩ => .ok (some (alice, bob))
    | .ok ⟨bob, _, some msg⟩ =>
      match ops.processMessage default validateAlice statusAlice alice msg with
      | .error f => .error f
      | .ok ⟨alice, _, none⟩ => .ok (some (alice, bob))
      | .ok ⟨alice, _, some msg⟩ =>
        exchange ops validateAlice validateBob statusAlice statusBob rounds alice bob msg

variable (ops : Store S E K V F ε)

def sync (validateAlice validateBob : S → E → ContentStatus → Except (Fault ε) Bool)
    (statusAlice statusBob : E → ContentStatus) (rounds : Nat) (alice bob : S) :
    Except (Fault ε) (Option (S × S)) :=
  match ops.initialMessage alice with
  | .error f => .error f
  | .ok msg => exchange ops validateAlice validateBob statusAlice statusBob rounds alice bob msg

def accept (_ : S) (_ : E) (_ : ContentStatus) : Except (Fault ε) Bool := .ok true

/-- Equal fingerprints of a range mean equal entries in it, for stores within `U`. -/
def Faithful (entries : S → Set E) (U : Set E) : Prop :=
  ∀ s t r, entries s ⊆ U → entries t ⊆ U → ops.getFingerprint s r = ops.getFingerprint t r →
    ∀ e, r.contains (key e) = true → (e ∈ entries s ↔ e ∈ entries t)

/-- The store is the result of inserting entries into an empty one. -/
def BuiltByPut (entries : S → Set E) (s : S) : Prop :=
  ∃ s₀ l, entries s₀ = ∅ ∧ ops.putAll s₀ l = .ok s

/-! ## Arrivals within `U` -/

section
variable {isPrefix : K → K → Prop} {U A : Set E} {l : List E} {m : E}
omit [LinearOrder K]

/-- No entry of the set is below another. -/
def Settled (isPrefix : K → K → Prop) (A : Set E) : Prop :=
  ∀ a ∈ A, ∀ p ∈ A, below isPrefix a p → p = a

lemma arriveAll_subset (hA : A ⊆ U) (hl : ∀ e ∈ l, e ∈ U) : arriveAll isPrefix A l ⊆ U :=
  fun _ he => (settleAll_subset l he).elim (fun h => hA h) (hl _)

lemma arriveAll_settled (hA : Settled isPrefix A) : Settled isPrefix (arriveAll isPrefix A l) :=
  settleAll_incomparable l hA

lemma maximum_stays (hm : m ∈ maxima (below isPrefix) U) (hl : ∀ e ∈ l, e ∈ U) (hmA : m ∈ A) :
    m ∈ arriveAll isPrefix A l :=
  mem_settleAll_of_mem hmA fun e he hle => hm.2 e (hl e he) hle

lemma maximum_arrives (hm : m ∈ maxima (below isPrefix) U) (hA : A ⊆ U) (hl : ∀ e ∈ l, e ∈ U)
    (hml : m ∈ l) : m ∈ arriveAll isPrefix A l := by
  refine mem_settleAll hml (fun p hp hle => hm.2 p ?_ hle) fun e he hle => hm.2 e (hl e he) hle
  cases hp with
  | inl hp => exact hA hp
  | inr hp => exact hl p hp

lemma arriveAll_append (l₁ l₂ : List E) :
    arriveAll isPrefix A (l₁ ++ l₂) = arriveAll isPrefix (arriveAll isPrefix A l₁) l₂ :=
  settleAll_append l₁ l₂

end

/-! ## The invariant -/

section
variable (isPrefix : K → K → Prop) (entries : S → Set E) (U : Set E)

/-- What a part sent by a peer with store `s` says about `s`. -/
def Sound (s : S) : MessagePart E K F → Prop
  | .rangeFingerprint fp => ops.getFingerprint s fp.range = .ok fp.fingerprint
  | .rangeItem ⟨_, values, true⟩ => ∀ e ∈ values.map Prod.fst,
      e ∈ U ∧ (e ∈ maxima (below isPrefix) U → e ∈ entries s)
  | .rangeItem ⟨range, values, false⟩ => ∀ e, e ∈ values.map Prod.fst ↔
      e ∈ entries s ∧ range.contains (key e) = true

/-- The part carries the entry, or asks for the entries around its key. -/
def Covers (m : E) : MessagePart E K F → Prop
  | .rangeFingerprint fp => fp.range.contains (key m) = true
  | .rangeItem ⟨_, values, true⟩ => m ∈ values.map Prod.fst
  | .rangeItem ⟨range, _, false⟩ => range.contains (key m) = true

/-- A bound on the answers that a part still causes. -/
noncomputable def rank : MessagePart E K F → Nat
  | .rangeFingerprint fp => {e ∈ U | fp.range.contains (key e) = true}.ncard + 2
  | .rangeItem ⟨_, _, true⟩ => 0
  | .rangeItem ⟨_, _, false⟩ => 1

/-- A message with the given parts is on its way from a peer with store `s` to one with store
`t`. -/
structure Pending (s t : S) (parts : List (MessagePart E K F)) : Prop where
  sender : entries s ⊆ U
  receiver : entries t ⊆ U
  senderSettled : Settled isPrefix (entries s)
  receiverSettled : Settled isPrefix (entries t)
  held : ∀ m ∈ maxima (below isPrefix) U, m ∈ entries s ∨ m ∈ entries t
  sound : ∀ q ∈ parts, Sound ops isPrefix entries U s q
  covered : ∀ m ∈ maxima (below isPrefix) U,
    (m ∈ entries s ∧ m ∈ entries t) ∨ ∃ q ∈ parts, Covers m q

/-- What the exchange relies on. -/
structure Setting : Prop where
  contract : Contract ops isPrefix entries
  prefixOrder : Above isPrefix
  ext : ∀ e e' : E, key e = key e' → value e = value e' → e = e'
  finite : U.Finite
  faithful : Faithful ops entries U

end

variable {ops : Store S E K V F ε} {isPrefix : K → K → Prop} {entries : S → Set E} {U : Set E}
  {cs : E → ContentStatus} {s t : S}

/-! ## Items -/

section
variable (X : Setting ops isPrefix entries U)
omit [Fingerprint F] [DecidableEq F]
include X

/-- The answer to one item: the store takes in its values, and a request is answered with every
entry the peer lacks. -/
lemma processItem_spec (cs : E → ContentStatus) (item : RangeItem E K) (t : S) :
    ∃ t' log out, processItem ops accept cs t item = .ok (t', log, out) ∧
      entries t' = arriveAll isPrefix (entries t) (item.values.map Prod.fst) ∧
      (∀ q ∈ out, item.haveLocal = false ∧ ∃ values, q = .rangeItem ⟨item.range, values, true⟩ ∧
        ∀ e ∈ values.map Prod.fst, e ∈ entries t) ∧
      (item.haveLocal = false → ∀ m ∈ entries t, item.range.contains (key m) = true →
        wanted item.values m = true → ∃ q ∈ out, Covers (F := F) m q) := by
  obtain ⟨t', log, hstor, ht'⟩ :=
    storeValues_spec X.contract X.prefixOrder.refl item.values t
  cases hloc : item.haveLocal with
  | true =>
    refine ⟨t', log, [], ?_, ht', by simp, by simp⟩
    simp only [processItem, hloc, if_true]
    rw [show storeValues ops accept t item.values = .ok (t', log) from hstor]
    rfl
  | false =>
    obtain ⟨l, hget, hl⟩ := X.contract.getRange t item.range
    have hdiff := diff_eq cs hget
    refine ⟨t', log, itemReply item.range ((l.filter (wanted item.values)).map fun e => (e, cs e)),
      ?_, ht', ?_, ?_⟩
    · simp only [processItem, hloc, Bool.false_eq_true, if_false, hdiff]
      rw [show storeValues ops accept t item.values = .ok (t', log) from hstor]
    · intro q hq
      cases hw : l.filter (wanted item.values) with
      | nil => simp [hw, itemReply] at hq
      | cons a as =>
        rw [hw] at hq
        refine ⟨rfl, _, mem_singleton.mp hq, fun e he => ?_⟩
        rw [map_map] at he
        have he' : e ∈ l.filter (wanted item.values) := by simpa [hw] using he
        exact ((hl.2 e).mp (mem_filter.mp he').1).1
    · intro _ m hm hr hw
      have hmem : m ∈ l.filter (wanted item.values) :=
        mem_filter.mpr ⟨(hl.2 m).mpr ⟨hm, hr⟩, hw⟩
      cases hws : l.filter (wanted item.values) with
      | nil => simp [hws] at hmem
      | cons a as =>
        refine ⟨_, mem_singleton_self _, ?_⟩
        rw [hws] at hmem
        simpa [Covers] using hmem

lemma processItems_spec (cs : E → ContentStatus) (items : List (RangeItem E K)) (t : S)
    (ht : entries t ⊆ U) (hvals : ∀ item ∈ items, ∀ e ∈ item.values.map Prod.fst, e ∈ U) :
    ∃ t' log out, processItems ops accept cs t items = .ok (t', log, out) ∧
      entries t' = arriveAll isPrefix (entries t) (items.flatMap fun item =>
        item.values.map Prod.fst) ∧
      (∀ q ∈ out, Sound ops isPrefix entries U t' q ∧ rank U q = 0 ∧
        ∃ item ∈ items, item.haveLocal = false) ∧
      (∀ item ∈ items, item.haveLocal = false → ∀ m ∈ maxima (below isPrefix) U, m ∈ entries t →
        item.range.contains (key m) = true → wanted item.values m = true →
        ∃ q ∈ out, Covers (F := F) m q) := by
  induction items generalizing t with
  | nil => exact ⟨t, [], [], rfl, rfl, by simp, by simp⟩
  | cons item items ih =>
    have hitem : ∀ e ∈ item.values.map Prod.fst, e ∈ U := hvals item (mem_cons_self ..)
    have hitems : ∀ i ∈ items, ∀ e ∈ i.values.map Prod.fst, e ∈ U :=
      fun i hi => hvals i (mem_cons_of_mem _ hi)
    obtain ⟨t₁, log₁, out₁, hrun₁, ht₁, hsent, hans⟩ := processItem_spec X cs item t
    have ht₁U : entries t₁ ⊆ U := by rw [ht₁]; exact arriveAll_subset ht hitem
    obtain ⟨t₂, log₂, out₂, hrun₂, ht₂, hsent₂, hans₂⟩ := ih t₁ ht₁U hitems
    have hlat : ∀ e ∈ items.flatMap fun i => i.values.map Prod.fst, e ∈ U := by
      intro e he
      obtain ⟨i, hi, hei⟩ := mem_flatMap.mp he
      exact hitems i hi e hei
    refine ⟨t₂, log₁ ++ log₂, out₁ ++ out₂, ?_, ?_, ?_, ?_⟩
    · simp only [processItems, hrun₁, hrun₂]
    · rw [ht₂, ht₁, flatMap_cons, arriveAll_append]
    · intro q hq
      cases mem_append.mp hq with
      | inl hq =>
        obtain ⟨hloc, values, rfl, hval⟩ := hsent q hq
        refine ⟨fun e he => ⟨ht (hval e he), fun hm => ?_⟩, rfl, item, by simp, hloc⟩
        rw [ht₂, ht₁]
        exact maximum_stays hm hlat (maximum_stays hm hitem (hval e he))
      | inr hq =>
        obtain ⟨hs, hrank, i, hi, hloc⟩ := hsent₂ q hq
        exact ⟨hs, hrank, i, mem_cons_of_mem _ hi, hloc⟩
    · intro i hi hloc m hm hmt hr hw
      cases hi with
      | head =>
        obtain ⟨q, hq, hc⟩ := hans hloc m hmt hr hw
        exact ⟨q, mem_append_left _ hq, hc⟩
      | tail _ hi =>
        have hmt₁ : m ∈ entries t₁ := by rw [ht₁]; exact maximum_stays hm hitem hmt
        obtain ⟨q, hq, hc⟩ := hans₂ i hi hloc m hm hmt₁ hr hw
        exact ⟨q, mem_append_right _ hq, hc⟩

end

/-! ## Fingerprints -/

section
variable (X : Setting ops isPrefix entries U)
omit [Fingerprint F] [DecidableEq F]

/-- A request or a fingerprint for a range. -/
def Asks (r : Range K) : MessagePart E K F → Prop
  | .rangeFingerprint fp => fp.range = r
  | .rangeItem ⟨range, _, haveLocal⟩ => range = r ∧ haveLocal = false

variable {r : Range K} {l : List E}

omit [LinearOrder V] in
lemma Asks.covers {q : MessagePart E K F} (h : Asks r q) {m : E}
    (hm : r.contains (key m) = true) : Covers m q := by
  cases q with
  | rangeFingerprint fp =>
    obtain rfl : fp.range = r := h
    exact hm
  | rangeItem item =>
    obtain ⟨range, values, haveLocal⟩ := item
    obtain ⟨rfl, rfl⟩ := h
    exact hm

omit [LinearOrder V] in
lemma Asks.rank_le {q : MessagePart E K F} (h : Asks r q) :
    rank U q ≤ {e ∈ U | r.contains (key e) = true}.ncard + 2 := by
  cases q with
  | rangeFingerprint fp =>
    obtain rfl : fp.range = r := h
    exact le_rfl
  | rangeItem item =>
    obtain ⟨range, values, haveLocal⟩ := item
    obtain ⟨rfl, rfl⟩ := h
    exact Nat.le_add_left 1 _

lemma request_sound (hl : Lists (entries t) r l) :
    Sound ops isPrefix entries U t (request cs r l) := by
  intro e
  rw [map_map, ← hl.2 e]
  simp

lemma chunk_sound {fp : F} (hl : Lists (entries t) r l)
    (hfp : ops.getFingerprint t r = .ok fp) : Sound ops isPrefix entries U t (chunk cs r l fp) := by
  unfold chunk
  split
  · exact hfp
  · exact request_sound hl

omit [LinearOrder K] in
lemma chunk_asks {fp : F} : Asks r (chunk cs r l fp) := by
  unfold chunk
  split
  · rfl
  · exact ⟨rfl, rfl⟩

include X

variable (cs : E → ContentStatus)

lemma chunkPart_spec (t : S) (r : Range K) :
    ∃ q, chunkPart ops default cs t r = .ok q ∧ Sound ops isPrefix entries U t q ∧ Asks r q := by
  obtain ⟨l, hget, hl⟩ := X.contract.getRange t r
  obtain ⟨fp, hfp⟩ := X.contract.getFingerprint t r
  exact ⟨_, chunkPart_eq hget hfp, chunk_sound hl hfp, chunk_asks⟩

lemma chunkParts_spec (t : S) (ranges : List (Range K)) :
    ∃ out, chunkParts ops default cs t ranges = .ok out ∧
      (∀ q ∈ out, Sound ops isPrefix entries U t q ∧ ∃ r ∈ ranges, Asks r q) ∧
      ∀ r ∈ ranges, ∃ q ∈ out, Asks r q := by
  induction ranges with
  | nil => exact ⟨[], rfl, by simp, by simp⟩
  | cons r ranges ih =>
    obtain ⟨q, hq, hsoun, hasks⟩ := chunkPart_spec X cs t r
    obtain ⟨out, hout, hall, hex⟩ := ih
    refine ⟨q :: out, by simp only [chunkParts, hq, hout], ?_, ?_⟩
    · intro q' hq'
      cases hq' with
      | head => exact ⟨hsoun, r, mem_cons_self .., hasks⟩
      | tail _ hq' =>
        obtain ⟨hs, r', hr', ha⟩ := hall q' hq'
        exact ⟨hs, r', mem_cons_of_mem _ hr', ha⟩
    · intro r' hr'
      cases hr' with
      | head => exact ⟨q, mem_cons_self .., hasks⟩
      | tail _ hr' =>
        obtain ⟨q', hq', ha⟩ := hex r' hr'
        exact ⟨q', mem_cons_of_mem _ hq', ha⟩

lemma recurse_spec (ht : entries t ⊆ U)
    (hlen : 2 ≤ l.length) (hget : ops.getRange t r = .ok (l.map .ok)) (hl : Lists (entries t) r l) :
    ∃ out, recurse ops default cs t r l.length = .ok out ∧
      (∀ q ∈ out, Sound ops isPrefix entries U t q ∧
        rank U q < {e ∈ U | r.contains (key e) = true}.ncard + 2) ∧
      ∀ m : E, r.contains (key m) = true → ∃ q ∈ out, Covers m q := by
  obtain ⟨f, p, hmid⟩ := exists_middle r hlen
  let parts := halves r (key f) (key p)
  have hcw := hmid.clockwise hl.1
  have hpt := (hl.2 p).mp hmid.mem_mid
  have hft := (hl.2 f).mp hmid.mem_first
  have hf₁ : parts.1.contains (key f) = true :=
    (halves_fst_contains hcw.ne hcw (.inl rfl)).mpr hcw
  have hp₁ : ¬ parts.1.contains (key p) = true := fun h =>
    Clockwise.irrefl ((halves_fst_contains hcw.ne hcw (.inr hcw)).mp h)
  obtain ⟨out, hout, hall, hex⟩ := chunkParts_spec X cs t
    (if r.isAll then [parts.2, parts.1] else [parts.1, parts.2])
  have hmem : ∀ r', r' ∈ (if r.isAll then [parts.2, parts.1] else [parts.1, parts.2]) ↔
      r' = parts.1 ∨ r' = parts.2 := by
    intro r'
    split
    · simp [or_comm]
    · simp
  refine ⟨out, (recurse_eq hmid hl.1 hget).trans hout, fun q hq => ?_, fun m hm => ?_⟩
  · obtain ⟨hs, r', hr', hasks⟩ := hall q hq
    refine ⟨hs, lt_of_le_of_lt hasks.rank_le (Nat.add_lt_add_right ?_ 2)⟩
    apply Set.ncard_lt_ncard _ (X.finite.subset (Set.sep_subset _ _))
    -- each half leaves out the entry at which the other starts
    cases (hmem r').mp hr' with
    | inl h =>
      subst h
      refine ⟨fun e he => ⟨he.1, halves_fst_le hpt.2 hcw he.2⟩, fun h => ?_⟩
      exact hp₁ (h ⟨ht hpt.1, hpt.2⟩).2
    | inr h =>
      subst h
      refine ⟨fun e he => ⟨he.1, ((halves_snd_contains hcw.ne hpt.2 hcw).mp he.2).1⟩, fun h => ?_⟩
      exact ((halves_snd_contains hcw.ne hpt.2 hcw).mp (h ⟨ht hft.1, hft.2⟩).2).2 hf₁
  · by_cases h₁ : parts.1.contains (key m) = true
    · obtain ⟨q, hq, ha⟩ := hex _ ((hmem _).mpr (.inl rfl))
      exact ⟨q, hq, ha.covers h₁⟩
    · obtain ⟨q, hq, ha⟩ := hex _ ((hmem _).mpr (.inr rfl))
      exact ⟨q, hq, ha.covers ((halves_snd_contains hcw.ne hpt.2 hcw).mpr ⟨hm, h₁⟩)⟩

end

section
variable (X : Setting ops isPrefix entries U) (cs : E → ContentStatus)
include X

lemma processFingerprint_spec (hs : entries s ⊆ U) (ht : entries t ⊆ U)
    (fp : RangeFingerprint K F) (hsent : ops.getFingerprint s fp.range = .ok fp.fingerprint) :
    ∃ out, processFingerprint ops default cs t fp = .ok out ∧
      (∀ q ∈ out, Sound ops isPrefix entries U t q ∧
        rank U q < rank U (.rangeFingerprint fp : MessagePart E K F)) ∧
      ∀ m : E, fp.range.contains (key m) = true →
        (m ∈ entries s ↔ m ∈ entries t) ∨ ∃ q ∈ out, Covers m q := by
  obtain ⟨l, hget, hl⟩ := X.contract.getRange t fp.range
  obtain ⟨localFp, hloc⟩ := X.contract.getFingerprint t fp.range
  have heq := processFingerprint_eq cs fp.fingerprint hloc hget
  by_cases hmat : localFp = fp.fingerprint
  · refine ⟨[], heq.trans (if_pos hmat), by simp, fun m hm => .inl ?_⟩
    exact X.faithful s t fp.range hs ht (by rw [hsent, hloc, hmat]) m hm
  · rw [if_neg hmat] at heq
    by_cases hanc : l.length ≤ 1 ∨ fp.fingerprint = Fingerprint.empty
    · refine ⟨_, heq.trans (if_pos hanc), ?_, fun m hm => .inr ⟨_, mem_singleton_self _, hm⟩⟩
      intro q hq
      obtain rfl := mem_singleton.mp hq
      exact ⟨request_sound hl, Nat.lt_add_left _ (Nat.lt_succ_self 1)⟩
    · rw [if_neg hanc] at heq
      obtain ⟨out, hout, hall, hex⟩ := recurse_spec X cs ht (by omega) hget hl
      exact ⟨out, heq.trans hout, hall, fun m hm => .inr (hex m hm)⟩

lemma processFingerprints_spec (hs : entries s ⊆ U) (ht : entries t ⊆ U)
    (fps : List (RangeFingerprint K F))
    (hsent : ∀ fp ∈ fps, ops.getFingerprint s fp.range = .ok fp.fingerprint) :
    ∃ out, processFingerprints ops default cs t fps = .ok out ∧
      (∀ q ∈ out, Sound ops isPrefix entries U t q ∧
        ∃ fp ∈ fps, rank U q < rank U (.rangeFingerprint fp : MessagePart E K F)) ∧
      ∀ fp ∈ fps, ∀ m : E, fp.range.contains (key m) = true →
        (m ∈ entries s ↔ m ∈ entries t) ∨ ∃ q ∈ out, Covers m q := by
  induction fps with
  | nil => exact ⟨[], rfl, by simp, by simp⟩
  | cons fp fps ih =>
    obtain ⟨out₁, hrun₁, hall₁, hex₁⟩ :=
      processFingerprint_spec X cs hs ht fp (hsent fp (mem_cons_self ..))
    obtain ⟨out₂, hrun₂, hall₂, hex₂⟩ := ih fun fp' h => hsent fp' (mem_cons_of_mem _ h)
    refine ⟨out₁ ++ out₂, by simp only [processFingerprints, hrun₁, hrun₂], ?_, ?_⟩
    · intro q hq
      cases mem_append.mp hq with
      | inl hq => exact ⟨(hall₁ q hq).1, fp, mem_cons_self .., (hall₁ q hq).2⟩
      | inr hq =>
        obtain ⟨hsq, fp', hfp', hr⟩ := hall₂ q hq
        exact ⟨hsq, fp', mem_cons_of_mem _ hfp', hr⟩
    · intro fp' hfp' m hm
      cases hfp' with
      | head =>
        cases hex₁ m hm with
        | inl h => exact .inl h
        | inr h => obtain ⟨q, hq, hc⟩ := h; exact .inr ⟨q, mem_append_left _ hq, hc⟩
      | tail _ hfp' =>
        cases hex₂ fp' hfp' m hm with
        | inl h => exact .inl h
        | inr h => obtain ⟨q, hq, hc⟩ := h; exact .inr ⟨q, mem_append_right _ hq, hc⟩

end

/-! ## One message -/

section
omit [Fingerprint F] [DecidableEq F]

def replyParts : Option (Message E K F) → List (MessagePart E K F)
  | none => []
  | some msg => msg.parts

variable {parts : List (MessagePart E K F)} {item : RangeItem E K}

omit [LinearOrder K] in
lemma mem_items : item ∈ parts.filterMap item? ↔ .rangeItem item ∈ parts := by
  rw [mem_filterMap]
  constructor
  · rintro ⟨q, hq, hi⟩
    cases q with
    | rangeFingerprint fp => cases hi
    | rangeItem item' => cases hi; exact hq
  · exact fun h => ⟨_, h, rfl⟩

omit [LinearOrder K] in
lemma mem_fingerprints {fp : RangeFingerprint K F} :
    fp ∈ parts.filterMap fingerprint? ↔ .rangeFingerprint fp ∈ parts := by
  rw [mem_filterMap]
  constructor
  · rintro ⟨q, hq, hi⟩
    cases q with
    | rangeFingerprint fp' => cases hi; exact hq
    | rangeItem item => cases hi
  · exact fun h => ⟨_, h, rfl⟩

lemma Sound.values_mem (hs : entries s ⊆ U)
    (h : Sound ops isPrefix entries U s (.rangeItem item)) :
    ∀ e ∈ item.values.map Prod.fst, e ∈ U := by
  obtain ⟨range, values, haveLocal⟩ := item
  cases haveLocal with
  | true => exact fun e he => (h e he).1
  | false => exact fun e he => hs ((h e).mp he).1

lemma wanted_of_maximum (hrefl : ∀ k, isPrefix k k) {m : E} (hm : m ∈ maxima (below isPrefix) U)
    {values : List (E × ContentStatus)} (hU : ∀ e ∈ values.map Prod.fst, e ∈ U)
    (hmv : m ∉ values.map Prod.fst) : wanted values m = true := by
  simp only [wanted, Bool.not_eq_true', any_eq_false, Bool.and_eq_true, decide_eq_true_eq]
  rintro their hmem ⟨hk, hv⟩
  have hmem' : their.1 ∈ values.map Prod.fst := mem_map_of_mem hmem
  have hle : below isPrefix m their.1 := ⟨hk ▸ hrefl _, hv⟩
  exact hmv (hm.2 _ (hU _ hmem') hle ▸ hmem')

variable {out : List (MessagePart E K F)} {t' : S} {m : E}

/-- A maximum that a fingerprint covers is held by both peers then, or covered by the answer. -/
lemma Pending.fingerprint_answered (P : Pending ops isPrefix entries U s t parts)
    (hm : m ∈ maxima (below isPrefix) U) (hstay : m ∈ entries t → m ∈ entries t')
    (hans : (m ∈ entries s ↔ m ∈ entries t') ∨ ∃ q ∈ out, Covers m q) :
    (m ∈ entries t' ∧ m ∈ entries s) ∨ ∃ q ∈ out, Covers m q := by
  cases hans with
  | inl hiff =>
    cases P.held m hm with
    | inl hs => exact .inl ⟨hiff.mp hs, hs⟩
    | inr ht => exact .inl ⟨hstay ht, hiff.mpr (hstay ht)⟩
  | inr hcover => exact .inr hcover

/-- A maximum that an item covers is held by both peers then, or covered by the answer. -/
lemma Pending.item_answered (P : Pending ops isPrefix entries U s t parts)
    (hrefl : ∀ k, isPrefix k k) (hm : m ∈ maxima (below isPrefix) U)
    (hitem : .rangeItem item ∈ parts) (hcov : Covers (F := F) m (.rangeItem item))
    (harr : m ∈ item.values.map Prod.fst → m ∈ entries t')
    (hans : item.haveLocal = false → m ∈ entries t → item.range.contains (key m) = true →
      wanted item.values m = true → ∃ q ∈ out, Covers m q) :
    (m ∈ entries t' ∧ m ∈ entries s) ∨ ∃ q ∈ out, Covers m q := by
  have hsoun := P.sound _ hitem
  have hvals := hsoun.values_mem P.sender
  obtain ⟨range, values, haveLocal⟩ := item
  cases haveLocal with
  | true => exact .inl ⟨harr hcov, (hsoun m hcov).2 hm⟩
  | false =>
    by_cases hs : m ∈ entries s
    · exact .inl ⟨harr ((hsoun m).mpr ⟨hs, hcov⟩), hs⟩
    · have hmt := (P.held m hm).resolve_left hs
      have hw := wanted_of_maximum hrefl hm hvals fun h => hs ((hsoun m).mp h).1
      exact .inr (hans rfl hmt hcov hw)

end

lemma processMessage_eq {validate : S → E → ContentStatus → Except (Fault ε) Bool}
    {msg : Message E K F} {t' : S} {log : List (E × ContentStatus)}
    {out out' : List (MessagePart E K F)}
    (hitems : processItems ops validate cs t (msg.parts.filterMap item?) = .ok (t', log, out))
    (hfps : processFingerprints ops default cs t' (msg.parts.filterMap fingerprint?) = .ok out') :
    ∃ reply, ops.processMessage default validate cs t msg = .ok ⟨t', log, reply⟩ ∧
      replyParts reply = out ++ out' ∧ (replyParts reply = [] → reply = none) := by
  simp only [processMessage, hitems, hfps]
  cases hpar : out ++ out' with
  | nil => exact ⟨none, rfl, rfl, fun _ => rfl⟩
  | cons q qs => exact ⟨some ⟨q :: qs⟩, rfl, rfl, fun h => absurd h (cons_ne_nil q qs)⟩

/-- **One message.** The receiver answers every part with parts of lower rank, and the invariant
carries over to the reply. -/
lemma processMessage_spec (X : Setting ops isPrefix entries U) (cs : E → ContentStatus)
    {msg : Message E K F}
    (P : Pending ops isPrefix entries U s t msg.parts) :
    ∃ t' log reply, ops.processMessage default accept cs t msg = .ok ⟨t', log, reply⟩ ∧
      Pending ops isPrefix entries U t' s (replyParts reply) ∧
      (∀ q ∈ replyParts reply, ∃ p ∈ msg.parts, rank U q < rank U p) ∧
      (replyParts reply = [] → reply = none) := by
  have hvals : ∀ item ∈ msg.parts.filterMap item?,
      ∀ e ∈ item.values.map Prod.fst, e ∈ U :=
    fun item hi => (P.sound _ (mem_items.mp hi)).values_mem P.sender
  obtain ⟨t', log, out, hitems, ht', hsent, hans⟩ :=
    processItems_spec X cs _ t P.receiver hvals
  have harriv : ∀ e ∈ (msg.parts.filterMap item?).flatMap fun item =>
      item.values.map Prod.fst, e ∈ U := by
    intro e he
    obtain ⟨item, hi, hei⟩ := mem_flatMap.mp he
    exact hvals item hi e hei
  have ht'U : entries t' ⊆ U := by rw [ht']; exact arriveAll_subset P.receiver harriv
  have hstay : ∀ m ∈ maxima (below isPrefix) U, m ∈ entries t → m ∈ entries t' := by
    intro m hm hmt
    rw [ht']
    exact maximum_stays hm harriv hmt
  have harr : ∀ m ∈ maxima (below isPrefix) U, ∀ item, .rangeItem item ∈ msg.parts →
      m ∈ item.values.map Prod.fst → m ∈ entries t' := by
    intro m hm item hi hmi
    rw [ht']
    exact maximum_arrives hm P.receiver harriv
      (mem_flatMap.mpr ⟨item, mem_items.mpr hi, hmi⟩)
  obtain ⟨out', hfps, hsent', hans'⟩ := processFingerprints_spec X cs P.sender ht'U
    (msg.parts.filterMap fingerprint?) fun fp hfp => P.sound _ (mem_fingerprints.mp hfp)
  obtain ⟨reply, hrun, hrep, hnone⟩ := processMessage_eq hitems hfps
  refine ⟨t', log, reply, hrun, ?_, ?_, hnone⟩
  · rw [hrep]
    refine ⟨ht'U, P.sender, ?_, P.senderSettled, ?_, ?_, ?_⟩
    · rw [ht']; exact arriveAll_settled P.receiverSettled
    · exact fun m hm => (P.held m hm).elim .inr fun h => .inl (hstay m hm h)
    · intro q hq
      cases mem_append.mp hq with
      | inl hq => exact (hsent q hq).1
      | inr hq => exact (hsent' q hq).1
    · intro m hm
      cases P.covered m hm with
      | inl h => exact .inl ⟨hstay m hm h.2, h.1⟩
      | inr h =>
        obtain ⟨p, hp, hcov⟩ := h
        cases p with
        | rangeFingerprint fp =>
          refine (P.fingerprint_answered hm (hstay m hm)
            (hans' fp (mem_fingerprints.mpr hp) m hcov)).imp_right ?_
          rintro ⟨q, hq, hc⟩
          exact ⟨q, mem_append_right _ hq, hc⟩
        | rangeItem item =>
          refine (P.item_answered X.prefixOrder.refl hm hp hcov (harr m hm item hp)
            fun hloc => hans item (mem_items.mpr hp) hloc m hm).imp_right ?_
          rintro ⟨q, hq, hc⟩
          exact ⟨q, mem_append_left _ hq, hc⟩
  · rw [hrep]
    intro q hq
    cases mem_append.mp hq with
    | inl hq =>
      obtain ⟨_, hrank, item, hi, hloc⟩ := hsent q hq
      refine ⟨_, mem_items.mp hi, ?_⟩
      obtain ⟨range, values, haveLocal⟩ := item
      obtain rfl : haveLocal = false := hloc
      rw [hrank]
      exact Nat.zero_lt_one
    | inr hq =>
      obtain ⟨_, fp, hfp, hrank⟩ := hsent' q hq
      exact ⟨_, mem_fingerprints.mp hfp, hrank⟩

/-! ## The whole exchange -/

section
variable (X : Setting ops isPrefix entries U) {alice bob : S}
omit [Fingerprint F] [DecidableEq F]
include X

lemma Pending.done (P : Pending ops isPrefix entries U s t []) :
    entries s = maxima (below isPrefix) U ∧ entries t = maxima (below isPrefix) U := by
  have hboth : ∀ m ∈ maxima (below isPrefix) U, m ∈ entries s ∧ m ∈ entries t := by
    intro m hm
    cases P.covered m hm with
    | inl h => exact h
    | inr h => obtain ⟨q, hq, _⟩ := h; cases hq
  have habov := above_below X.prefixOrder X.ext
  exact ⟨habov.eq_maxima X.finite P.sender (fun m hm => (hboth m hm).1) P.senderSettled,
    habov.eq_maxima X.finite P.receiver (fun m hm => (hboth m hm).2) P.receiverSettled⟩

lemma initialMessage_spec (hU : entries alice ∪ entries bob = U)
    (ha : Settled isPrefix (entries alice)) (hb : Settled isPrefix (entries bob)) :
    ∃ msg, ops.initialMessage alice = .ok msg ∧ Pending ops isPrefix entries U alice bob msg.parts ∧
      ∀ p ∈ msg.parts, rank U p < U.ncard + 3 := by
  obtain ⟨k, hk⟩ := X.contract.getFirst alice
  obtain ⟨fp, hfp⟩ := X.contract.getFingerprint alice ⟨k, k⟩
  refine ⟨⟨[.rangeFingerprint ⟨⟨k, k⟩, fp⟩]⟩, ?_, ?_, ?_⟩
  · simp only [initialMessage, hk, hfp]
  · refine ⟨hU ▸ Set.subset_union_left, hU ▸ Set.subset_union_right, ha, hb, ?_, ?_, ?_⟩
    · intro m hm
      have hmU := hm.1
      rw [← hU] at hmU
      exact hmU
    · intro q hq
      obtain rfl := mem_singleton.mp hq
      exact hfp
    · exact fun m _ => .inr ⟨_, mem_singleton_self _, Range.contains_of_eq rfl⟩
  · intro p hp
    obtain rfl := mem_singleton.mp hp
    have := Set.ncard_le_ncard (Set.sep_subset U fun e => Range.contains ⟨k, k⟩ (key e) = true)
      X.finite
    exact Nat.lt_succ_of_le (Nat.add_le_add_right this 2)

end

/-- The exchange ends after as many rounds as the highest rank of the first message. -/
lemma exchange_spec (X : Setting ops isPrefix entries U) {alice bob : S}
    (statusAlice statusBob : E → ContentStatus) (n : Nat) {msg : Message E K F}
    (P : Pending ops isPrefix entries U alice bob msg.parts)
    (hrank : ∀ p ∈ msg.parts, rank U p < n) :
    ∃ alice' bob', exchange ops accept accept statusAlice statusBob (n + 1) alice bob msg =
        .ok (some (alice', bob')) ∧
      entries alice' = maxima (below isPrefix) U ∧ entries bob' = maxima (below isPrefix) U := by
  induction n generalizing alice bob msg with
  | zero =>
    obtain ⟨bob₁, log, reply, hrun, P₁, hlt, hnone⟩ := processMessage_spec X statusBob P
    have hnil : replyParts reply = [] := by
      refine eq_nil_iff_forall_not_mem.mpr fun q hq => ?_
      obtain ⟨p, hp, _⟩ := hlt q hq
      exact Nat.not_lt_zero _ (hrank p hp)
    obtain rfl := hnone hnil
    exact ⟨alice, bob₁, by simp only [exchange, hrun], (P₁.done X).2, (P₁.done X).1⟩
  | succ n ih =>
    obtain ⟨bob₁, log, reply, hrun, P₁, hlt, _⟩ := processMessage_spec X statusBob P
    cases reply with
    | none =>
      exact ⟨alice, bob₁, by rw [exchange]; simp only [hrun], (P₁.done X).2, (P₁.done X).1⟩
    | some msg₁ =>
      obtain ⟨alice₂, log₂, reply₂, hrun₂, P₂, hlt₂, _⟩ :=
        processMessage_spec X statusAlice P₁
      cases reply₂ with
      | none =>
        exact ⟨alice₂, bob₁, by rw [exchange]; simp only [hrun, hrun₂], (P₂.done X).1,
          (P₂.done X).2⟩
      | some msg₂ =>
        have hrank₂ : ∀ p ∈ msg₂.parts, rank U p < n := by
          intro p hp
          obtain ⟨q, hq, hpq⟩ := hlt₂ p hp
          obtain ⟨q', hq', hqq⟩ := hlt q hq
          have := hrank q' hq'
          omega
        obtain ⟨alice', bob', hrest, hdone⟩ := ih P₂ hrank₂
        refine ⟨alice', bob', ?_, hdone⟩
        rw [exchange]
        simp only [hrun, hrun₂, hrest]

omit [Fingerprint F] [DecidableEq F] in
lemma putAll_spec (C : Contract ops isPrefix entries) (hrefl : ∀ k, isPrefix k k) {l : List E}
    {s s' : S} (h : ops.putAll s l = .ok s') : entries s' = arriveAll isPrefix (entries s) l := by
  induction l generalizing s with
  | nil => cases h; rfl
  | cons e l ih =>
    obtain ⟨s₁, outcome, hput, hs₁⟩ := put_spec C hrefl s e
    simp only [putAll, hput] at h
    rw [ih h, hs₁]
    rfl

omit [Fingerprint F] [DecidableEq F] in
lemma BuiltByPut.settled (C : Contract ops isPrefix entries) (hrefl : ∀ k, isPrefix k k)
    (h : BuiltByPut ops entries s) : (entries s).Finite ∧ Settled isPrefix (entries s) := by
  obtain ⟨s₀, l, hs₀, hput⟩ := h
  rw [putAll_spec C hrefl hput, hs₀]
  refine ⟨(finite_toSet l).subset fun e he => mem_of_mem_settleAll_empty he, ?_⟩
  exact arriveAll_settled fun a ha => absurd ha (Set.notMem_empty a)

/-- **Reconciliation converges.** Two peers whose stores were built by `put` reach the end of the
exchange after finitely many messages, and both then hold exactly the entries of the union that no
other entry of the union at the same or a prefix key matches or exceeds. -/
theorem sync_converges (C : Contract ops isPrefix entries) (hpre : Above isPrefix)
    (hext : ∀ e e' : E, key e = key e' → value e = value e' → e = e')
    (statusAlice statusBob : E → ContentStatus) {alice bob : S}
    (ha : BuiltByPut ops entries alice) (hb : BuiltByPut ops entries bob)
    (hfaithful : Faithful ops entries (entries alice ∪ entries bob)) :
    ∃ rounds alice' bob',
      ops.sync accept accept statusAlice statusBob rounds alice bob = .ok (some (alice', bob')) ∧
      entries alice' = maxima (below isPrefix) (entries alice ∪ entries bob) ∧
      entries bob' = maxima (below isPrefix) (entries alice ∪ entries bob) := by
  obtain ⟨hfinA, hsetA⟩ := ha.settled C hpre.refl
  obtain ⟨hfinB, hsetB⟩ := hb.settled C hpre.refl
  have X : Setting ops isPrefix entries (entries alice ∪ entries bob) :=
    ⟨C, hpre, hext, hfinA.union hfinB, hfaithful⟩
  obtain ⟨msg, hmsg, P, hrank⟩ := initialMessage_spec X rfl hsetA hsetB
  obtain ⟨alice', bob', hrun, hdone⟩ := exchange_spec X statusAlice statusBob _ P hrank
  refine ⟨(entries alice ∪ entries bob).ncard + 3 + 1, alice', bob', ?_, hdone⟩
  simp only [sync, hmsg]
  exact hrun

/-- Two test stores with byte strings as keys: Alice holds `[1] ↦ 3` and `[1, 2] ↦ 5`, and Bob
holds `[1] ↦ 4` and `[2] ↦ 1`. -/
theorem sync_converges_simpleStore : ∃ rounds alice' bob',
      (setStore fun a b : List (Fin 256) => a.isPrefixOf b).sync accept accept
          (fun _ => .complete) (fun _ => .missing) rounds
          ((Table.empty.insert [1] (3 : Nat)).insert [1, 2] 5)
          ((Table.empty.insert [1] 4).insert [2] 1) =
        .ok (some (alice', bob')) ∧
      simpleEntries alice' = maxima (below fun a b => a.isPrefixOf b = true)
        {([1], 3), ([1, 2], 5), ([1], 4), ([2], 1)} ∧
      simpleEntries bob' = maxima (below fun a b => a.isPrefixOf b = true)
        {([1], 3), ([1, 2], 5), ([1], 4), ([2], 1)} := by
  have hpre : Above fun a b : List (Fin 256) => a.isPrefixOf b = true :=
    { refl := fun a => by simp
      trans := fun {a b c} hab hbc => by
        rw [ isPrefixOf_iff_prefix] at *
        exact hab.trans hbc
      antisymm := fun {a b} hab hba => by
        rw [ isPrefixOf_iff_prefix] at *
        exact hab.eq_of_length (le_antisymm hab.length_le hba.length_le) }
  have hU : ({([1], 3), ([1, 2], 5), ([1], 4), ([2], 1)} : Set (List (Fin 256) × Nat)) =
      simpleEntries ((Table.empty.insert [1] 3).insert [1, 2] 5) ∪
        simpleEntries ((Table.empty.insert [1] 4).insert [2] 1) := by
    ext ⟨k, v⟩
    simp [simpleEntries, Table.mem_insert]
    grind
  rw [hU]
  exact sync_converges (setStore_contract _) hpre (fun e e' hk hv => Prod.ext hk hv) _ _
    ⟨Table.empty, [([1], 3), ([1, 2], 5)], simpleEntries_empty, rfl⟩
    ⟨Table.empty, [([1], 4), ([2], 1)], simpleEntries_empty, rfl⟩
    fun s t r _ _ h e he => setStore_faithful h e he

end Krikos.Docs.Store
