import Krikos.Gossip.Topic
import Krikos.Lib.Run

/-!
# Gossip.Views

The two views of the membership protocol over whole runs.

Every handler is a sequence of moves: a peer is enrolled in the passive view or discarded from it,
or an active peer comes or goes (`moves_handle`). What every move keeps is kept by every run of
events, so the views are separate and within their capacities, and the active peers are those that
were last reported as up (`views_sound`). Only `Quit` empties the active view without a report.
-/

namespace Krikos.Gossip.HyParView

open Lib IndexSet List OutEvent State Relation

variable {PI R : Type} [LinearOrder PI]

/-! ## Neighbor events -/

def OutEvent.neighborOf (p : PI) : OutEvent PI → Option (Event PI)
  | .emitEvent (.neighborUp q) => if q = p then some (.neighborUp q) else none
  | .emitEvent (.neighborDown q) => if q = p then some (.neighborDown q) else none
  | _ => none

def neighborEvents (p : PI) (out : List (OutEvent PI)) : List (Event PI) :=
  out.filterMap (neighborOf p)

/-- The peer is a neighbor after the events, given whether it was one before. -/
def NeighborAfter (p : PI) (old : Prop) (out : List (OutEvent PI)) : Prop :=
  match (neighborEvents p out).getLast? with
  | none => old
  | some event => event = .neighborUp p

section
variable {p q : PI} {old : Prop} {out : List (OutEvent PI)} {e : OutEvent PI}

lemma neighborOf_eq_none (h : e.isNeighborEvent = false) : e.neighborOf p = none := by
  cases e with
  | emitEvent event => cases h
  | sendMessage receiver message | scheduleTimer delay timer | disconnectPeer peer
  | peerData peer data => rfl

lemma neighborEvents_push_none (h : e.neighborOf p = none) :
    neighborEvents p (out ++ [e]) = neighborEvents p out := by
  simp only [neighborEvents, filterMap_append, filterMap_cons, h, filterMap_nil, append_nil]

lemma neighborEvents_push_some {event : Event PI} (h : e.neighborOf p = some event) :
    neighborEvents p (out ++ [e]) = neighborEvents p out ++ [event] := by
  simp only [neighborEvents, filterMap_append, filterMap_cons, h, filterMap_nil]

lemma neighborAfter_false :
    NeighborAfter p False out ↔ (neighborEvents p out).getLast? = some (.neighborUp p) := by
  unfold NeighborAfter
  cases (neighborEvents p out).getLast? with
  | none | some event => simp

end

/-! ## Moves -/

/-- The views are separate, without the local peer, and within their capacities. -/
structure State.Valid (s : State PI R) : Prop where
  activeCapacity : 0 < s.config.activeViewCapacity
  passiveCapacity : 0 < s.config.passiveViewCapacity
  me_active : s.me ∉ s.activeView.items
  me_passive : s.me ∉ s.passiveView.items
  disjoint : ∀ p ∈ s.activeView.items, p ∉ s.passiveView.items
  active_len : s.activeView.len ≤ s.config.activeViewCapacity
  passive_len : s.passiveView.len ≤ s.config.passiveViewCapacity

/-- The active peers are the neighbors after the events. -/
def Tracks (old : IndexSet PI) (x : Node PI R) : Prop :=
  ∀ p, p ∈ x.state.activeView.items ↔ NeighborAfter p (p ∈ old.items) x.out

def Alternates (x : Node PI R) : Prop :=
  ∀ p, (neighborEvents p x.out).IsChain (· ≠ ·)

section
variable {random : Random R} {x y z : Node PI R} {peer p : PI} {s : State PI R}
  {old : IndexSet PI}

lemma State.mem_freedPassive (h : p ∈ (s.freedPassive random).items) : p ∈ s.passiveView.items := by
  unfold freedPassive at h
  split at h
  · unfold removeRandom at h
    split at h
    · exact h
    · exact mem_of_mem_eraseIdx h
  · exact h

lemma State.freedPassive_len_lt (random : Random R) (hcap : 0 < s.config.passiveViewCapacity)
    (hlen : s.passiveView.len ≤ s.config.passiveViewCapacity) :
    (s.freedPassive random).len < s.config.passiveViewCapacity := by
  unfold freedPassive
  split
  · rename_i hfull
    have hge : s.config.passiveViewCapacity ≤ s.passiveView.len := of_decide_eq_true hfull
    have hpos : 0 < s.passiveView.items.length := hcap.trans_le hge
    have hne : s.passiveView.items.isEmpty = false := by
      rw [isEmpty_eq_false_iff]
      exact ne_nil_of_length_pos hpos
    have hlt := random.randomRange_lt s.rng _ hpos
    simp only [removeRandom, pickRandomIndex, hne, len,
      shiftRemoveIndex, length_eraseIdx, hlt, if_true, Bool.false_eq_true, if_false]
    unfold len at hlen
    omega
  · rename_i hfull
    exact Nat.lt_of_not_le fun hge => hfull (decide_eq_true hge)

section
variable (h : Move random x y)
include h

lemma Move.valid (hx : x.state.Valid) : y.state.Valid := by
  cases h with
  | emit _ => exact hx
  | update hme hconfig hactive hpassive =>
    obtain ⟨h₁, h₂, h₃, h₄, h₅, h₆, h₇⟩ := hx
    constructor <;> simp only [Io.modify_state, hme, hconfig, hactive, hpassive] <;> assumption
  | enroll hme hactive =>
    refine ⟨hx.activeCapacity, hx.passiveCapacity, hx.me_active, ?_, ?_, hx.active_len, ?_⟩
    · intro hmem
      cases mem_insert.mp hmem with
      | inl hold => exact hx.me_passive (mem_freedPassive hold)
      | inr heq => exact hme heq.symm
    · intro p hp hmem
      cases mem_insert.mp hmem with
      | inl hold => exact hx.disjoint p hp (mem_freedPassive hold)
      | inr heq => exact hactive (heq ▸ hp)
    · have hroom := freedPassive_len_lt random hx.passiveCapacity hx.passive_len
      exact len_insert_le.trans hroom
  | discard =>
    refine ⟨hx.activeCapacity, hx.passiveCapacity, hx.me_active, ?_, ?_, hx.active_len, ?_⟩
    · exact fun hmem => hx.me_passive (mem_remove.mp hmem).1
    · exact fun p hp hmem => hx.disjoint p hp (mem_remove.mp hmem).1
    · exact len_removeIndex_le.trans hx.passive_len
  | down hpeer =>
    obtain ⟨hi, hpeer⟩ := List.getElem?_eq_some_iff.mp hpeer
    refine ⟨hx.activeCapacity, hx.passiveCapacity, ?_, hx.me_passive, ?_, ?_, hx.passive_len⟩
    · exact fun hmem => hx.me_active ((mem_removeIndex hi).mp hmem).1
    · exact fun p hp => hx.disjoint p ((mem_removeIndex hi).mp hp).1
    · exact len_removeIndex_le.trans hx.active_len
  | up hme hactive hpassive hroom =>
    refine ⟨hx.activeCapacity, hx.passiveCapacity, ?_, hx.me_passive, ?_, ?_, hx.passive_len⟩
    · intro hmem
      cases mem_insert.mp hmem with
      | inl hold => exact hx.me_active hold
      | inr heq => exact hme heq.symm
    · intro p hp
      cases mem_insert.mp hp with
      | inl hold => exact hx.disjoint p hold
      | inr heq => exact heq ▸ hpassive
    · exact len_insert_le.trans hroom

/-- What a move reports about a peer: nothing if it stays where it is, and else where it goes. -/
lemma Move.reports (p : PI) : (neighborEvents p y.out = neighborEvents p x.out ∧
      (p ∈ y.state.activeView.items ↔ p ∈ x.state.activeView.items)) ∨
    (neighborEvents p y.out = neighborEvents p x.out ++ [.neighborDown p] ∧
      p ∈ x.state.activeView.items ∧ p ∉ y.state.activeView.items) ∨
    (neighborEvents p y.out = neighborEvents p x.out ++ [.neighborUp p] ∧
      p ∉ x.state.activeView.items ∧ p ∈ y.state.activeView.items) := by
  cases h with
  | emit he => exact .inl ⟨neighborEvents_push_none (neighborOf_eq_none he), Iff.rfl⟩
  | update hme hconfig hactive hpassive => exact .inl ⟨rfl, by rw [Io.modify_state, hactive]⟩
  | enroll hme hactive | discard => exact .inl ⟨rfl, Iff.rfl⟩
  | @down i peer hpeer =>
    obtain ⟨hi, hget⟩ := List.getElem?_eq_some_iff.mp hpeer
    have hmem : p ∈ (x.state.activeView.removeIndex i).items ↔ _ := mem_removeIndex hi
    rw [hget] at hmem
    by_cases hp : peer = p
    · subst hp
      refine .inr (.inl ⟨neighborEvents_push_some (if_pos rfl), mem_of_getElem? hpeer, ?_⟩)
      exact fun hin => (hmem.mp hin).2 rfl
    · exact .inl ⟨neighborEvents_push_none (if_neg hp), hmem.trans (and_iff_left (Ne.symm hp))⟩
  | @up peer hme hactive hpassive hroom =>
    by_cases hp : peer = p
    · subst hp
      exact .inr (.inr ⟨neighborEvents_push_some (if_pos rfl), hactive, mem_insert.mpr (.inr rfl)⟩)
    · exact .inl ⟨neighborEvents_push_none (if_neg hp), mem_insert.trans (or_iff_left (Ne.symm hp))⟩

lemma Move.tracks (hx : Tracks old x) : Tracks old y := by
  intro p
  unfold NeighborAfter
  rcases h.reports p with ⟨heven, hmem⟩ | ⟨heven, -, hmem⟩ | ⟨heven, -, hmem⟩
  · rw [heven, hmem]
    exact hx p
  · rw [heven, getLast?_concat]
    simpa using hmem
  · rw [heven, getLast?_concat]
    simpa using hmem

lemma Move.alternates (hx : Tracks .empty x) (halt : Alternates x) : Alternates y := by
  intro p
  have hlast : p ∈ x.state.activeView.items ↔
      (neighborEvents p x.out).getLast? = some (.neighborUp p) := by
    rw [hx p, ← neighborAfter_false]
    simp [empty]
  have hpush : ∀ event, (neighborEvents p x.out).getLast? ≠ some event →
      (neighborEvents p x.out ++ [event]).IsChain (· ≠ ·) := by
    intro event hne
    refine (halt p).append (isChain_singleton event) ?_
    intro a ha b hb heq
    cases hb
    exact hne (heq ▸ ha)
  rcases h.reports p with ⟨heven, -⟩ | ⟨heven, hmem, -⟩ | ⟨heven, hmem, -⟩
  · rw [heven]
    exact halt p
  · rw [heven]
    refine hpush _ fun hdown => ?_
    cases (hlast.mp hmem).symm.trans hdown
  · rw [heven]
    exact hpush _ fun hup => hmem (hlast.mpr hup)

end

section
variable (h : Moves random x y)
include h

lemma Moves.valid (hx : x.state.Valid) : y.state.Valid := by
  induction h with
  | refl => exact hx
  | tail _ hmove ih => exact hmove.valid ih

lemma Moves.tracks (hx : Tracks old x) : Tracks old y := by
  induction h with
  | refl => exact hx
  | tail _ hmove ih => exact hmove.tracks ih

lemma Moves.alternates (hx : Tracks .empty x) (halt : Alternates x) : Alternates y := by
  induction h with
  | refl => exact halt
  | tail hmov hmove ih => exact hmove.alternates (Moves.tracks hmov hx) ih

lemma Moves.me : y.state.me = x.state.me := by
  induction h with
  | refl => rfl
  | tail _ hmove ih =>
    cases hmove with
    | update hme => exact hme.trans ih
    | _ => exact ih

lemma Moves.config : y.state.config = x.state.config := by
  induction h with
  | refl => rfl
  | tail _ hmove ih =>
    cases hmove with
    | update _ hconfig => exact hconfig.trans ih
    | _ => exact ih

end

lemma Drops.len_lt (h : Drops peer x y) (hpeer : peer ∈ x.state.activeView.items) :
    y.state.activeView.len < x.state.activeView.len := by
  have hnod : (peer :: y.state.activeView.items).Nodup :=
    nodup_cons.mpr ⟨fun hmem => ((h.active peer).mp hmem).2 rfl, y.state.activeView.nodup⟩
  have hsub : peer :: y.state.activeView.items ⊆ x.state.activeView.items := by
    intro q hq
    cases mem_cons.mp hq with
    | inl heq => exact heq ▸ hpeer
    | inr hold => exact ((h.active q).mp hold).1
  exact (hnod.subperm hsub).length_le

/-! ## Every handler is a sequence of moves -/

namespace Node
variable (random)

lemma moves_freeRandomSlotInActiveView (x : Node PI R) :
    Moves random x (freeRandomSlotInActiveView random x) := by
  rcases freeRandomSlotInActiveView_cases random x with hcalm | ⟨peer, _, hrem⟩
  · exact hcalm.moves
  · exact hrem.moves

lemma moves_addActiveUnchecked (x : Node PI R) (peer : PI) (priority : Priority) (reply : Bool)
    (hme : peer ≠ x.state.me) (hroom : x.state.activeView.len < x.state.config.activeViewCapacity) :
    Moves random x (addActiveUnchecked x peer priority reply) := by
  have hdis : Moves random x (x.modify fun s => { s with
      passiveView := s.passiveView.remove peer }) := .single .discard
  unfold addActiveUnchecked
  simp only
  split
  · exact hdis
  · rename_i hactive
    have hpassive : peer ∉ (x.state.passiveView.remove peer).items :=
      fun hmem => (mem_remove.mp hmem).2 rfl
    have hup := hdis.tail (.up hme hactive hpassive hroom)
    split
    · exact hup.trans (calm_sendNeighbor random _ _ _).moves
    · exact hup

lemma freeRandomSlotInActiveView_len_lt (h : 0 < x.state.activeView.len) :
    (freeRandomSlotInActiveView random x).state.activeView.len < x.state.activeView.len := by
  have hne : x.state.activeView.items.isEmpty = false := by
    rw [isEmpty_eq_false_iff]
    exact ne_nil_of_length_pos h
  have hlt := random.randomRange_lt x.state.rng _ h
  simp only [freeRandomSlotInActiveView, pickRandomIndex, hne, Bool.false_eq_true, if_false]
  refine Drops.len_lt (x := x.modify _) (removes_removeActiveByIndex random ?_).drops (getElem_mem hlt)
  exact getElem?_eq_getElem hlt

lemma moves_addActive (hx : x.state.Valid) (peer : PI) (data : Option PeerData)
    (priority : Priority) (reply : Bool) :
    Moves random x (addActive random x peer data priority reply).1 := by
  obtain ⟨hquiet, hins⟩ := calm_insertPeerInfo random x ⟨peer, data⟩
  have hy := hins.valid hx
  refine addActive_ind random (fun _ => .refl) (fun _ => hins) (fun _ => ?_) (fun hme hfull => ?_)
    (fun hroom _ => ?_) fun _ _ => hins
  · exact hins.trans (calm_sendNeighbor random _ _ _).moves
  · exact hins.trans (moves_addActiveUnchecked random _ peer _ reply (hquiet.me ▸ hme)
      (Nat.lt_of_not_le (of_decide_eq_false hfull)))
  · rw [← insertPeerInfo_makesRoomFor x ⟨peer, data⟩, makesRoomFor_eq_true] at hroom
    generalize insertPeerInfo x ⟨peer, data⟩ = y at hins hy hroom ⊢
    obtain ⟨hme, -, hfull⟩ := hroom
    have hlen : y.state.config.activeViewCapacity ≤ y.state.activeView.len :=
      of_decide_eq_true hfull
    have hmov := moves_freeRandomSlotInActiveView random y
    have hlt := freeRandomSlotInActiveView_len_lt random (hy.activeCapacity.trans_le hlen)
    refine (hins.trans hmov).trans (moves_addActiveUnchecked random _ peer _ reply ?_ ?_)
    · rw [hmov.me]
      exact hme
    · rw [hmov.config]
      exact hlt.trans_le hy.active_len

lemma moves_onJoin (hx : x.state.Valid) (peer : PI) (data : Option PeerData) :
    Moves random x (onJoin random x peer data) := by
  unfold onJoin
  exact (moves_addActive random hx peer data .high true).trans
    (calm_foldl (fun _ _ => calm_push rfl rfl) _ _).moves

lemma moves_onNeighbor (hx : x.state.Valid) (sender : PI) (details : Neighbor) :
    Moves random x (onNeighbor random x sender details) := by
  have heras := (calm_eraseRequest random x sender).moves
  unfold onNeighbor
  simp only
  generalize decide (sender ∈ x.state.pendingNeighborRequests) = isReply
  generalize (x.modify fun s => { s with
    pendingNeighborRequests := s.pendingNeighborRequests.erase sender }) = y at heras ⊢
  have hadd := heras.trans (moves_addActive random (heras.valid hx) sender details.data
    details.priority (!isReply))
  split
  · rename_i z hz
    rw [hz] at hadd
    exact hadd
  · rename_i z hz
    rw [hz] at hadd
    exact hadd.trans (ends_sendDisconnect random z sender true).moves

lemma moves_handleConnectionClosed (x : Node PI R) (peer : PI) :
    Moves random x (handleConnectionClosed random x peer) := by
  rcases handleConnectionClosed_cases random x peer with ⟨hcalm, -⟩ | ⟨hrem, -⟩
  · exact hcalm.moves
  · exact hrem.moves

lemma moves_handleMessage (hx : x.state.Valid) (sender : PI) (message : Message PI) :
    Moves random x (handleMessage random x sender message) := by
  have hmes : Moves random x (onMessage random x sender message) := by
    cases message with
    | join data => exact moves_onJoin random hx sender data
    | forwardJoin details => exact (calm_onForwardJoin random x sender details).moves
    | shuffle details => exact (calm_onShuffle random x sender details).moves
    | shuffleReply details => exact (calm_onShuffleReply random x details).moves
    | neighbor details => exact moves_onNeighbor random hx sender details
    | disconnect details =>
      cases onDisconnect_cases random x sender details with
      | inl hcalm => exact hcalm.moves
      | inr hrem => exact hrem.moves
  unfold handleMessage
  simp only
  split
  · exact hmes.trans (moves_push rfl)
  · exact hmes

end Node

/-- Every event except for `Quit` is handled by a sequence of moves. -/
lemma moves_handle (random : Random R) (hx : x.state.Valid) {event : InEvent PI}
    (h : event ≠ .quit) : Moves random x (Node.handle random x event) := by
  refine ReflTransGen.trans ?_ (calm_scheduleShuffle random _).moves
  cases event with
  | recvMessage sender message => exact Node.moves_handleMessage random hx sender message
  | timerExpired timer =>
    cases timer with
    | doShuffle => exact (Node.calm_handleShuffleTimer random x).moves
    | pendingNeighborRequest peer =>
      exact (Node.calm_handlePendingNeighborTimer random x peer).moves
  | peerDisconnected peer => exact Node.moves_handleConnectionClosed random x peer
  | requestJoin peer => exact moves_push rfl
  | updatePeerData data => exact (calm_modify rfl rfl rfl rfl).moves
  | quit => exact absurd rfl h

lemma moves_handle_quit (random : Random R) (h : x.state.activeView.items = []) :
    Moves random x (Node.handle random x .quit) := by
  have hquit : Node.handleQuit random x = x := by
    unfold Node.handleQuit
    rw [h, foldl_nil]
  unfold Node.handle
  simp only [hquit]
  exact (calm_scheduleShuffle random x).moves

end

/-! ## Runs -/

/-- The views of the local peer, and the neighbor events emitted so far. -/
structure Sound (me : PI) (config : Config) (x : Node PI R) : Prop where
  me_active : me ∉ x.state.activeView.items
  me_passive : me ∉ x.state.passiveView.items
  disjoint : ∀ p ∈ x.state.activeView.items, p ∉ x.state.passiveView.items
  active_len : x.state.activeView.len ≤ config.activeViewCapacity
  passive_len : x.state.passiveView.len ≤ config.passiveViewCapacity
  active_iff : ∀ p, p ∈ x.state.activeView.items ↔
    (neighborEvents p x.out).getLast? = some (.neighborUp p)
  alternates : ∀ p, (neighborEvents p x.out).IsChain (· ≠ ·)

section
variable (random : Random R)

lemma State.valid_new (me : PI) (meData : Option PeerData) (config : Topic.ValidConfig)
    (rng : R) : (new me meData config.val.membership rng).Valid := by
  have hboun := (Topic.validate_eq_ok config.val).mp config.property
  exact ⟨hboun.activeView.1, hboun.passiveView.1, not_mem_nil, not_mem_nil,
    fun _ hp => absurd hp not_mem_nil, Nat.zero_le _, Nat.zero_le _⟩

lemma moves_run {x : Node PI R} (hx : x.state.Valid) {events : List (InEvent PI)}
    (h : InEvent.quit ∉ events) : Moves random x (run (Node.handle random) x events) := by
  induction events generalizing x with
  | nil => exact .refl
  | cons event events ih =>
    have hne : event ≠ .quit := fun heq => h (heq ▸ mem_cons_self)
    have hfir := moves_handle random hx hne
    exact hfir.trans (ih (hfir.valid hx) fun hmem => h (mem_cons_of_mem _ hmem))

lemma sound_of_moves {s : State PI R} {y : Node PI R} (hs : s.Valid)
    (hactive : s.activeView = .empty) (h : Moves random ⟨s, []⟩ y) : Sound s.me s.config y := by
  have htrac : Tracks .empty (⟨s, []⟩ : Node PI R) := by
    intro p
    rw [hactive]
    exact Iff.rfl
  have hy := h.valid hs
  refine ⟨h.me ▸ hy.me_active, h.me ▸ hy.me_passive, hy.disjoint, h.config ▸ hy.active_len,
    h.config ▸ hy.passive_len, fun p => ?_, h.alternates htrac fun p => isChain_nil⟩
  rw [h.tracks htrac p, ← neighborAfter_false]
  simp only [empty, not_mem_nil]

/-- Whatever the events before `Quit`, the local peer is in neither view, the views
are disjoint and within their capacities, and the active peers are those that were last reported as
up, in reports that alternate. -/
theorem views_sound (me : PI) (meData : Option PeerData) (config : Topic.ValidConfig) (rng : R)
    (events : List (InEvent PI)) (h : InEvent.quit ∉ events) :
    Sound me config.val.membership
      (run (Node.handle random) ⟨new me meData config.val.membership rng, []⟩ events) := by
  have hnew := valid_new me meData config rng
  exact sound_of_moves random hnew rfl (moves_run random hnew h)

/-- A peer joins, and its connection closes. -/
theorem views_sound_join_close :
    InEvent.quit ∉ [InEvent.recvMessage 1 (.join none), .peerDisconnected 1] ∧
      Sound 0 Config.default (run (Node.handle Random.first) ⟨new 0 none Config.default (), []⟩
        [.recvMessage 1 (.join none), .peerDisconnected 1]) := by
  refine ⟨?quit, views_sound Random.first 0 none Topic.ValidConfig.default () _ ?quit⟩
  simp

end
end Krikos.Gossip.HyParView
