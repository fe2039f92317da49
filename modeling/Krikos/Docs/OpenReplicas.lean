import Krikos.Docs.Documents
import Krikos.Lib.Run

/-!
# Docs.OpenReplicas

The documents that the docs actor has open (`actor.rs`): handles are opened and closed, and documents
are dropped. The store keeps an open set of its own.

An action that fails should change nothing. But an open for one subscriber too many has added its
handle before it fails, and a drop of a document with more handles has closed one of them before the
store refuses to remove the document. Without these, the two components agree (`balanced_of_harmless`).
-/

namespace Krikos.Docs

open Lib

/-! ## The actor -/

def MAX_ACTIVE_DOCUMENTS : Nat := 1024

def MAX_SUBSCRIBERS_PER_DOCUMENT : Nat := 256

/-- An open document, with the number of its subscribers. The handles are a `usize`. -/
structure OpenReplica where
  info : ReplicaInfo
  subscribers : Nat
  sync : Bool
  handles : Nat

structure OpenOpts where
  sync : Bool
  subscribe : Bool

inductive ActorError where
  | limit (resource : String) (actual maximum : Nat)
  | store (e : StoreError)
  deriving DecidableEq

structure DocsActor where
  states : Table NamespaceId OpenReplica
  store : FsStore
  contentStatusCallback : Option (Hash → ContentStatus)

def subscribe (subscribers : Nat) (wanted : Bool) : Except ActorError Nat :=
  if wanted = false then .ok subscribers
  else if MAX_SUBSCRIBERS_PER_DOCUMENT ≤ subscribers then
    .error (.limit "document subscribers" (subscribers + 1) MAX_SUBSCRIBERS_PER_DOCUMENT)
  else .ok (subscribers + 1)

inductive ActorAction where
  | importNamespace (capability : Capability)
  | open (ns : NamespaceId) (opts : OpenOpts)
  | close (ns : NamespaceId)
  | dropReplica (ns : NamespaceId)

namespace DocsActor

def new : DocsActor := ⟨.empty, .new, none⟩

/-- `open` with `open_with` -/
def openWith (crypto : Crypto) (a : DocsActor) (ns : NamespaceId) (opts : OpenOpts) :
    DocsActor × Except ActorError Unit :=
  match a.states.get ns with
  | none =>
    if MAX_ACTIVE_DOCUMENTS ≤ a.states.rows.length then
      (a, .error (.limit "open documents" (a.states.rows.length + 1) MAX_ACTIVE_DOCUMENTS))
    else
      match a.store.loadReplicaInfo crypto ns with
      | .error e => (a, .error (.store e))
      | .ok (store, info) =>
        let a := { a with store }
        match subscribe 0 opts.subscribe with
        | .error e => (a, .error e)
        | .ok subscribers =>
          let info := { info with contentStatusCb := a.contentStatusCallback }
          ({ a with states := a.states.insert ns ⟨info, subscribers, opts.sync, 1⟩ }, .ok ())
  | some state =>
    let state := { state with
      handles := (state.handles + 1) % 2 ^ 64
      sync := state.sync || opts.sync }
    match subscribe state.subscribers opts.subscribe with
    | .error e => ({ a with states := a.states.insert ns state }, .error e)
    | .ok subscribers => ({ a with states := a.states.insert ns { state with subscribers } }, .ok ())

variable (a : DocsActor) (ns : NamespaceId)

def close : DocsActor :=
  match a.states.get ns with
  | none => { a with store := a.store.closeReplica ns }
  | some state =>
    -- `wrapping_sub`
    let handles := (state.handles + (2 ^ 64 - 1)) % 2 ^ 64
    if handles = 0 then { a with states := a.states.remove ns, store := a.store.closeReplica ns }
    else { a with states := a.states.insert ns { state with handles } }

def dropReplica : DocsActor × Except ActorError Unit :=
  match (a.close ns).store.removeReplica ns with
  | .error e => (a.close ns, .error (.store e))
  | .ok store => ({ a.close ns with store }, .ok ())

/-- An imported capability also goes into the info of the open document, which is not read here. -/
def importNamespace (crypto : Crypto) (a : DocsActor) (capability : Capability) :
    DocsActor × Except ActorError Unit :=
  match a.store.importNamespace crypto capability with
  | .error e => (a, .error (.store e))
  | .ok (store, _) => ({ a with store }, .ok ())

def onAction (crypto : Crypto) (a : DocsActor) : ActorAction → DocsActor × Except ActorError Unit
  | .importNamespace capability => a.importNamespace crypto capability
  | .open ns opts => a.openWith crypto ns opts
  | .close ns => (a.close ns, .ok ())
  | .dropReplica ns => a.dropReplica ns

def handles (a : DocsActor) (ns : NamespaceId) : Nat := (a.states.get ns).elim 0 OpenReplica.handles

/-- The action does not fail halfway: there is room for a wanted subscriber of an open document, and
a document that is dropped has no other handle. -/
def Harmless : ActorAction → Prop
  | .open ns opts => ∀ state ∈ a.states.get ns, state.handles + 1 < 2 ^ 64 ∧
      (opts.subscribe = true → state.subscribers < MAX_SUBSCRIBERS_PER_DOCUMENT)
  | .dropReplica ns => ∀ state ∈ a.states.get ns, state.handles = 1
  | _ => True

instance (a : DocsActor) : (action : ActorAction) → Decidable (a.Harmless action)
  | .open _ _ => inferInstanceAs (Decidable (∀ state ∈ _, _ ∧ (_ → _)))
  | .dropReplica _ => inferInstanceAs (Decidable (∀ state ∈ _, _))
  | .importNamespace _ => .isTrue trivial
  | .close _ => .isTrue trivial

end DocsActor

/-! ## Counting -/

/-- The actor, and the opens without the closes that succeeded for each document since it was fully
closed. -/
structure ActorRun where
  actor : DocsActor
  opened : NamespaceId → Nat

namespace ActorRun

def new : ActorRun := ⟨.new, fun _ => 0⟩

def count (opened : NamespaceId → Nat) : ActorAction → Except ActorError Unit → NamespaceId → Nat
  | _, .error _ => opened
  | .importNamespace _, .ok _ => opened
  | .open ns _, .ok _ => Function.update opened ns (opened ns + 1)
  | .close ns, .ok _ => Function.update opened ns (opened ns - 1)
  | .dropReplica ns, .ok _ => Function.update opened ns 0

variable (crypto : Crypto) (run : ActorRun) (action : ActorAction)

def step : ActorRun :=
  ⟨(run.actor.onAction crypto action).1,
    count run.opened action (run.actor.onAction crypto action).2⟩

structure Balanced (run : ActorRun) : Prop where
  handles : ∀ ns, run.actor.handles ns = run.opened ns
  openSet : ∀ ns, ns ∈ run.actor.store.openReplicas ↔ 0 < run.actor.handles ns

/-- If the action fails, it leaves the handles and the open set as they are. -/
def Intact : Prop :=
  ∀ e, (run.actor.onAction crypto action).2 = .error e →
    (∀ ns, (run.actor.onAction crypto action).1.handles ns = run.actor.handles ns) ∧
      (run.actor.onAction crypto action).1.store.openReplicas = run.actor.store.openReplicas

/-- Stored capabilities are under their own identifiers. -/
def Named (s : FsStore) : Prop :=
  ∀ ns capability, s.capability ns = .ok capability → capability.id crypto = ns

structure Inv (crypto : Crypto) (run : ActorRun) : Prop extends run.Balanced where
  bounds : ∀ ns state, run.actor.states.get ns = some state →
    0 < state.handles ∧ state.handles < 2 ^ 64
  named : Named crypto run.actor.store

variable {crypto : Crypto} {run : ActorRun} {a : DocsActor} {ns : NamespaceId} {s s' : FsStore}
  {entry : Option OpenReplica}

lemma fromRaw_raw (capability : Capability) :
    Capability.fromRaw capability.raw.1 capability.raw.2 = .ok capability := by
  cases capability <;> rfl

lemma named_putCapability (h : Named crypto s) (capability : Capability) :
    Named crypto (s.putCapability crypto capability) := by
  intro ns found hfound
  by_cases hns : ns = capability.id crypto
  · subst hns
    rw [FsStore.capability, FsStore.putCapability, Table.get_insert_self] at hfound
    simp only [fromRaw_raw, Except.ok.injEq] at hfound
    rw [hfound]
  · refine h ns found ?_
    rwa [FsStore.capability, FsStore.putCapability, Table.get_insert_of_ne hns] at hfound

lemma importNamespace_ok {capability : Capability} {outcome : ImportNamespaceOutcome}
    (h : Named crypto s) (hok : s.importNamespace crypto capability = .ok (s', outcome)) :
    Named crypto s' ∧ s'.openReplicas = s.openReplicas := by
  revert hok
  fun_cases FsStore.importNamespace crypto s capability with
  | case1 | case4 | case5 =>
    rintro ⟨⟩
    exact ⟨named_putCapability h _, rfl⟩
  | _ => rintro ⟨⟩

lemma named_removeReplica (h : Named crypto s) (hok : s.removeReplica ns = .ok s') :
    Named crypto s' := by
  unfold FsStore.removeReplica at hok
  split at hok
  · cases hok
  · cases hok
    intro n found hfound
    by_cases hn : n = ns
    · subst hn
      rw [FsStore.capability, Table.get_remove_self] at hfound
      cases hfound
    · refine h n found ?_
      rwa [FsStore.capability, Table.get_remove_of_ne hn] at hfound

/-- One document changes: it has the given entry now, and its count. -/
lemma Inv.set {opened : NamespaceId → Nat} (h : run.Inv crypto)
    (hget : ∀ n, a.states.get n = if n = ns then entry else run.actor.states.get n)
    (hopen : ∀ n, n ∈ a.store.openReplicas ↔
      if n = ns then entry.isSome = true else n ∈ run.actor.store.openReplicas)
    (hbounds : ∀ state ∈ entry, 0 < state.handles ∧ state.handles < 2 ^ 64)
    (hopened : opened = Function.update run.opened ns (entry.elim 0 OpenReplica.handles))
    (hnamed : Named crypto a.store) : (ActorRun.mk a opened).Inv crypto := by
  refine ⟨⟨fun n => ?_, fun n => ?_⟩, fun n state hstate => ?_, hnamed⟩
  · subst hopened
    show (a.states.get n).elim 0 _ = Function.update run.opened ns _ n
    rw [hget]
    by_cases hn : n = ns
    · rw [if_pos hn, hn, Function.update_self]
    · rw [if_neg hn, Function.update_of_ne hn]
      exact h.handles n
  · rw [hopen, DocsActor.handles, hget]
    by_cases hn : n = ns
    · rw [if_pos hn, if_pos hn]
      cases entry with
      | none => simp
      | some state => simpa using (hbounds state rfl).1
    · rw [if_neg hn, if_neg hn]
      exact h.openSet n
  · rw [hget] at hstate
    split at hstate
    · exact hbounds state hstate
    · exact h.bounds n state hstate

/-- The action fails and changes nothing, or it succeeds and keeps the invariant. -/
def Clean (crypto : Crypto) (run : ActorRun) (action : ActorAction)
    (r : DocsActor × Except ActorError Unit) : Prop :=
  (∃ e, r = (run.actor, .error e)) ∨
    ∃ a, r = (a, .ok ()) ∧ (ActorRun.mk a (count run.opened action (.ok ()))).Inv crypto

lemma mem_openReplicas (h : run.Inv crypto) (hget : run.actor.states.get ns = entry) :
    ns ∈ run.actor.store.openReplicas ↔ entry.isSome = true := by
  rw [h.openSet, DocsActor.handles, hget]
  cases entry with
  | none => simp
  | some state => simpa using (h.bounds ns state hget).1

lemma get_insert (states : Table NamespaceId OpenReplica) (state : OpenReplica) (n : NamespaceId) :
    (states.insert ns state).get n = if n = ns then some state else states.get n := by
  split
  · rename_i hn
    rw [hn, Table.get_insert_self]
  · rename_i hn
    exact Table.get_insert_of_ne hn

lemma clean_open (h : run.Inv crypto) {opts : OpenOpts} (hok : run.actor.Harmless (.open ns opts)) :
    run.Clean crypto (.open ns opts) (run.actor.openWith crypto ns opts) := by
  have hcount := h.handles ns
  unfold DocsActor.handles at hcount
  unfold DocsActor.openWith
  cases hget : run.actor.states.get ns with
  | none =>
    rw [hget] at hcount
    simp only
    split
    · exact .inl ⟨_, rfl⟩
    · unfold FsStore.loadReplicaInfo
      cases hcap : run.actor.store.capability ns with
      | error e => exact .inl ⟨_, rfl⟩
      | ok capability =>
        obtain ⟨subscribers, hsub⟩ : ∃ subscribers, subscribe 0 opts.subscribe = .ok subscribers := by
          cases opts.subscribe
          · exact ⟨0, rfl⟩
          · exact ⟨1, rfl⟩
        simp only [hsub]
        refine .inr ⟨_, rfl, h.set (get_insert _ _) (fun n => ?_) ?_ ?_ h.named⟩
        · rw [Finset.mem_insert, h.named ns capability hcap]
          by_cases hn : n = ns
          · simp [hn]
          · simp [hn]
        · rintro _ ⟨⟩
          exact ⟨Nat.one_pos, by norm_num⟩
        · rw [count, ← hcount]
          rfl
  | some state =>
    rw [hget] at hcount
    obtain ⟨hroom, hsubscribe⟩ := hok state hget
    obtain ⟨subscribers, hsub⟩ :
        ∃ subscribers, subscribe state.subscribers opts.subscribe = .ok subscribers := by
      unfold subscribe
      cases hwant : opts.subscribe with
      | false => exact ⟨_, rfl⟩
      | true =>
        rw [if_neg (by decide), if_neg (not_le.mpr (hsubscribe hwant))]
        exact ⟨_, rfl⟩
    simp only [hsub, Nat.mod_eq_of_lt hroom]
    refine .inr ⟨_, rfl, h.set (get_insert _ _) (fun n => ?_) ?_ ?_ h.named⟩
    · by_cases hn : n = ns
      · simpa [hn] using mem_openReplicas h hget
      · simp [hn]
    · rintro _ ⟨⟩
      exact ⟨Nat.succ_pos _, hroom⟩
    · rw [count, ← hcount]
      rfl

lemma clean_import (h : run.Inv crypto) (capability : Capability) :
    run.Clean crypto (.importNamespace capability)
      (run.actor.importNamespace crypto capability) := by
  unfold DocsActor.importNamespace
  cases himport : run.actor.store.importNamespace crypto capability with
  | error e => exact .inl ⟨_, rfl⟩
  | ok result =>
    obtain ⟨hnamed, hopen⟩ := importNamespace_ok h.named himport
    refine .inr ⟨_, rfl, ⟨⟨h.handles, fun n => ?_⟩, h.bounds, hnamed⟩⟩
    show n ∈ result.1.openReplicas ↔ _
    rw [hopen]
    exact h.openSet n

lemma mem_closeReplica (s : FsStore) (n : NamespaceId) : n ∈ (s.closeReplica ns).openReplicas ↔
    if n = ns then (none : Option OpenReplica).isSome = true else n ∈ s.openReplicas := by
  by_cases hn : n = ns
  · simp [FsStore.closeReplica, hn]
  · simp [FsStore.closeReplica, hn]

lemma inv_close (h : run.Inv crypto) :
    (ActorRun.mk (run.actor.close ns) (Function.update run.opened ns (run.opened ns - 1))).Inv
      crypto := by
  have hcount := h.handles ns
  unfold DocsActor.close
  cases hget : run.actor.states.get ns with
  | none =>
    rw [DocsActor.handles, hget] at hcount
    refine @Inv.set _ _ _ ns none _ h (fun n => ?_) (fun n => ?_) nofun ?_
      h.named
    · show run.actor.states.get n = _
      by_cases hn : n = ns
      · rw [if_pos hn, hn, hget]
      · rw [if_neg hn]
    · exact mem_closeReplica _ n
    · rw [← hcount]
      rfl
  | some state =>
    rw [DocsActor.handles, hget] at hcount
    obtain ⟨hpos, hlt⟩ := h.bounds ns state hget
    have hsub : (state.handles + (2 ^ 64 - 1)) % 2 ^ 64 = state.handles - 1 := by
      rw [show state.handles + (2 ^ 64 - 1) = state.handles - 1 + 2 ^ 64 by omega,
        Nat.add_mod_right, Nat.mod_eq_of_lt (by omega)]
    simp only [hsub]
    split
    · rename_i hzero
      refine @Inv.set _ _ _ ns none _ h (fun n => ?_) (fun n => ?_) nofun
        ?_ h.named
      · by_cases hn : n = ns
        · rw [if_pos hn, hn]
          exact Table.get_remove_self
        · rw [if_neg hn]
          exact Table.get_remove_of_ne hn
      · exact mem_closeReplica _ n
      · rw [← hcount]
        simp [hzero]
    · rename_i hmore
      refine h.set (get_insert _ _) (fun n => ?_) ?_ ?_ h.named
      · by_cases hn : n = ns
        · simpa [hn] using mem_openReplicas h hget
        · simp [hn]
      · rintro _ ⟨⟩
        exact ⟨Nat.pos_of_ne_zero hmore, (Nat.sub_le _ _).trans_lt hlt⟩
      · rw [← hcount]
        rfl

lemma clean_drop (h : run.Inv crypto) (hok : run.actor.Harmless (.dropReplica ns)) :
    run.Clean crypto (.dropReplica ns) (run.actor.dropReplica ns) := by
  have hclose := @inv_close _ _ ns h
  have hzero : run.opened ns - 1 = 0 := by
    rw [← h.handles ns, DocsActor.handles]
    cases hget : run.actor.states.get ns with
    | none => rfl
    | some state => rw [Option.elim_some, hok state hget]
  rw [hzero] at hclose
  unfold DocsActor.dropReplica
  cases hremove : (run.actor.close ns).store.removeReplica ns with
  | error e =>
    have hin : ns ∈ (run.actor.close ns).store.openReplicas := by
      unfold FsStore.removeReplica at hremove
      split at hremove
      · assumption
      · cases hremove
    have hpos := (hclose.openSet ns).mp hin
    rw [hclose.handles] at hpos
    simp only [Function.update_self, Nat.lt_irrefl] at hpos
  | ok store =>
    have hopen : store.openReplicas = (run.actor.close ns).store.openReplicas := by
      unfold FsStore.removeReplica at hremove
      split at hremove
      · cases hremove
      · cases hremove
        rfl
    refine .inr ⟨_, rfl, ⟨⟨hclose.handles, fun n => ?_⟩, hclose.bounds,
      named_removeReplica hclose.named hremove⟩⟩
    show n ∈ store.openReplicas ↔ _
    rw [hopen]
    exact hclose.openSet n

lemma clean_action (h : run.Inv crypto) {action : ActorAction} (hok : run.actor.Harmless action) :
    run.Clean crypto action (run.actor.onAction crypto action) := by
  cases action with
  | importNamespace capability => exact clean_import h capability
  | «open» ns opts => exact clean_open h hok
  | close ns => exact .inr ⟨_, rfl, inv_close h⟩
  | dropReplica ns => exact clean_drop h hok

lemma inv_step (run : ActorRun) (action : ActorAction) (h : run.Inv crypto)
    (hok : run.actor.Harmless action) : (run.step crypto action).Inv crypto := by
  unfold step
  rcases clean_action h hok with ⟨e, hr⟩ | ⟨a, hr, hinv⟩
  · rw [hr]
    exact h
  · rw [hr]
    exact hinv

lemma intact_step (h : run.Inv crypto) {action : ActorAction} (hok : run.actor.Harmless action) :
    run.Intact crypto action := by
  intro e he
  rcases clean_action h hok with ⟨e', hr⟩ | ⟨a, hr, -⟩
  · rw [hr]
    exact ⟨fun _ => rfl, rfl⟩
  · rw [hr] at he
    cases he

lemma inv_new : new.Inv crypto := by
  refine ⟨⟨fun _ => rfl, fun _ => ?_⟩, nofun, nofun⟩
  exact iff_of_false (Finset.notMem_empty _) (Nat.lt_irrefl 0)

/-- In every run of harmless actions the handles are the opens without the closes,
the store has the same documents open, and an action that fails changes neither. -/
theorem balanced_of_harmless (crypto : Crypto) (actions : List ActorAction)
    (h : Along (step crypto) (fun run => run.actor.Harmless) new actions) :
    Throughout (step crypto) Balanced new actions ∧
      Along (step crypto) (Intact crypto) new actions := by
  refine ⟨(throughout_of_along inv_step inv_new h).imp fun _ => Inv.toBalanced, ?_⟩
  exact h.imp inv_new fun run action hinv hok => ⟨inv_step run action hinv hok, intact_step hinv hok⟩

theorem balanced_of_harmless_dropped :
    (Lib.run (step .plain) new [.importNamespace (.read (.zero 32)), .open (.zero 32) ⟨true, true⟩,
      .dropReplica (.zero 32)]).Balanced :=
  (balanced_of_harmless .plain _ (by decide +kernel)).1.last

/-- A document with two handles loses one of them, but is not dropped. -/
theorem dropReplica_not_intact : ¬ (Lib.run (step .plain) new [.importNamespace (.read (.zero 32)),
      .open (.zero 32) ⟨true, false⟩, .open (.zero 32) ⟨true, false⟩]).Intact .plain
        (.dropReplica (.zero 32)) := by
  intro h
  obtain ⟨hhandles, -⟩ := h (.store .replicaIsNotClosed) (by decide +kernel)
  exact absurd (hhandles (.zero 32)) (by decide +kernel)

end ActorRun
end Krikos.Docs
