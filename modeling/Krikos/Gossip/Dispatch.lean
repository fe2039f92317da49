import Krikos.Gossip.Topic
import Krikos.Lib.Wire

/-!
# Gossip.Dispatch

The announcements that wait for the dispatch timer (`proto/plumtree.rs`), and the frames that they
are sent in (`net/util.rs`).
-/

namespace Krikos.Gossip.PlumTree

open Lib List

/-- What `write_frame` encodes: the discriminators of the layer and of the message, the number of
entries, and for each one its id and its round. -/
def frameSize (entries : List IHave) : Nat :=
  1 + 1 + (Wire.putVarint entries.length).length +
    (entries.map fun entry => 32 + (Wire.putVarint entry.round.hops.val).length).sum

lemma frameSize_le {entries : List IHave} (h : entries.length ≤ maxIHaveEntries) :
    frameSize entries ≤ 4 + entries.length * IHave.postcardMaxSize := by
  have hcount : (Wire.putVarint entries.length).length ≤ 2 :=
    Wire.putVarint_length_le (k := 1) (h.trans_lt (by decide))
  have hsum := sum_le_card_nsmul
    (entries.map fun entry => 32 + (Wire.putVarint entry.round.hops.val).length)
    IHave.postcardMaxSize fun size hsize => by
      obtain ⟨entry, -, rfl⟩ := mem_map.mp hsize
      exact Nat.add_le_add_left
        (Wire.putVarint_length_le (k := 2) (entry.round.hops.isLt.trans (by decide))) 32
  rw [length_map, smul_eq_mul] at hsum
  unfold frameSize
  omega

namespace Node

section
variable {α : Type} {n : Nat} {l : List α}

lemma flatten_slices (k : Nat) :
    ((range k).map fun i => (l.drop (i * n)).take n).flatten = l.take (k * n) := by
  induction k with
  | zero => simp
  | succ k ih => rw [range_succ, map_append, flatten_append, ih, Nat.succ_mul, take_add]; simp

lemma flatten_chunks (hn : 0 < n) : (chunks n l).flatten = l := by
  unfold chunks
  rw [flatten_slices]
  refine take_of_length_le ?_
  have hlt := Nat.lt_div_mul_add (a := l.length + n - 1) hn
  omega

lemma mem_chunks (hn : 0 < n) {chunk : List α} (h : chunk ∈ chunks n l) :
    chunk ≠ [] ∧ chunk.length ≤ n ∧ chunk.length ≤ l.length := by
  obtain ⟨i, hi, rfl⟩ := mem_map.mp h
  have hlt : (i + 1) * n ≤ l.length + n - 1 :=
    (Nat.mul_le_mul_right n (mem_range.mp hi)).trans (Nat.div_mul_le_self _ n)
  rw [Nat.succ_mul] at hlt
  refine ⟨ne_nil_of_length_pos ?_, length_take_le _ _, ?_⟩
  · rw [length_take, length_drop]
    omega
  · rw [length_take, length_drop]
    omega

end

variable {PI : Type} [LinearOrder PI] {queues : Table PI (List IHave)}

/-- The queues that announcements build up. -/
inductive Queued : Table PI (List IHave) → Prop where
  | empty : Queued .empty
  | lazyPush (x : Node PI) (gossip : Gossip) (sender : PI) : Queued x.state.lazyPushQueue →
      Queued (lazyPush x gossip sender).state.lazyPushQueue

def Bounded (queues : Table PI (List IHave)) : Prop :=
  ∀ row ∈ queues.rows, row.2.length ≤ maxLazyQueuePerPeer

lemma Bounded.announce (h : Bounded queues) (peer : PI) (entry : IHave) :
    Bounded (queues.insert peer (if ((queues.get peer).getD []).length < maxLazyQueuePerPeer then
      (queues.get peer).getD [] ++ [entry] else (queues.get peer).getD [])) := by
  intro row hrow
  rcases Table.mem_insert.mp hrow with ⟨-, hnew⟩ | ⟨-, hold⟩
  · rw [hnew]
    split
    · rename_i hroom
      simpa using hroom
    · cases hget : queues.get peer with
      | none => exact Nat.zero_le _
      | some queue => exact h _ (Table.get_eq_some.mp hget)
  · exact h row hold

lemma Queued.bounded (h : Queued queues) : Bounded queues := by
  induction h with
  | empty => exact fun _ hrow => absurd hrow not_mem_nil
  | lazyPush x gossip sender h ih =>
    fun_cases Node.lazyPush x gossip sender with
    | case1 => exact ih
    | case2 round hround queues y | case3 round hround queues y =>
      exact foldlRecOn (motive := Bounded) _ _ ih fun _ hqueues row _ => hqueues.announce row.1 _

/-- The messages of the queues, each with its receiver. -/
def announcements (chunkLen : Nat) (rows : List (PI × List IHave)) : List (PI × List IHave) :=
  rows.flatMap fun row => (chunks chunkLen row.2).map fun chunk => (row.1, chunk)

lemma out_onDispatchTimer (x : Node PI) : (onDispatchTimer x).out = x.out ++
    (announcements ((x.state.maxMessageSize - 1 - 2) / IHave.postcardMaxSize)
      x.state.lazyPushQueue.rows).map fun message => .sendMessage message.1 (.iHave message.2) := by
  have hpush : ∀ (messages : List (PI × List IHave)) (y : Node PI),
      (messages.foldl (fun y message => y.push (.sendMessage message.1 (.iHave message.2))) y).out =
        y.out ++ messages.map fun message => .sendMessage message.1 (.iHave message.2) := by
    intro messages
    induction messages with
    | nil => simp
    | cons message messages ih => intro y; rw [foldl_cons, ih]; simp [Io.push]
  rw [← hpush, announcements, foldl_flatMap]
  simp only [foldl_map]
  rfl

lemma entries_announcements {chunkLen : Nat} (hlen : 0 < chunkLen) (rows : List (PI × List IHave))
    (peer : PI) :
    ((announcements chunkLen rows).filter fun message => message.1 = peer).flatMap Prod.snd =
      (rows.filter fun row => row.1 = peer).flatMap Prod.snd := by
  unfold announcements
  induction rows with
  | nil => rfl
  | cons row rows ih =>
    rw [flatMap_cons, filter_append, flatMap_append, ih, filter_map]
    by_cases heq : row.1 = peer
    · simp [heq, Function.comp_def, flatMap_map, flatten_chunks hlen]
    · simp [heq, Function.comp_def]

lemma flatMap_filter_key {rows : List (PI × List IHave)} (h : rows.Pairwise fun a b => a.1 < b.1)
    (peer : PI) : (rows.filter fun row => row.1 = peer).flatMap Prod.snd =
      ((rows.find? fun row => row.1 = peer).map Prod.snd).getD [] := by
  induction rows with
  | nil => rfl
  | cons row rows ih =>
    obtain ⟨hlt, hrest⟩ := pairwise_cons.mp h
    by_cases heq : row.1 = peer
    · have hnone : rows.filter (fun row => row.1 = peer) = [] :=
        filter_eq_nil_iff.mpr fun other hother => by simpa [← heq] using (hlt other hother).ne'
      simp [heq, hnone]
    · simpa [heq] using ih hrest

/-- The dispatch timer sends every queued entry to its peer once and in order, in messages that are
not empty, that a receiver reads whole and that fit into a frame. Nothing is queued after it, so that
nothing is sent again, and the next announcement schedules it again. -/
theorem dispatch_complete (config : Topic.ValidConfig) (x : Node PI)
    (hsize : x.state.maxMessageSize = config.val.maxMessageSize - Topic.postcardHeaderSize)
    (hqueue : Queued x.state.lazyPushQueue) :
    ∃ sent : List (PI × List IHave),
      (onDispatchTimer x).out =
        x.out ++ sent.map (fun message => .sendMessage message.1 (.iHave message.2)) ∧
      (∀ peer, (sent.filter fun message => message.1 = peer).flatMap Prod.snd =
        (x.state.lazyPushQueue.get peer).getD []) ∧
      (∀ message ∈ sent, message.2 ≠ [] ∧ message.2.length ≤ maxIHaveEntries ∧
        frameSize message.2 < config.val.maxMessageSize) ∧
      (onDispatchTimer x).state.lazyPushQueue = .empty ∧
      (onDispatchTimer x).state.dispatchTimerScheduled = false := by
  obtain ⟨⟨hmin, -⟩, -⟩ := (Topic.validate_eq_ok config.val).mp config.property
  have hlen : 0 < (x.state.maxMessageSize - 1 - 2) / IHave.postcardMaxSize := by
    refine Nat.div_pos ?_ (by decide)
    rw [hsize]
    unfold Topic.postcardHeaderSize IHave.postcardMaxSize
    unfold Gossip.minMaxMessageSize at hmin
    omega
  refine ⟨_, out_onDispatchTimer x, fun peer => ?_, fun message hmessage => ?_, rfl, rfl⟩
  · rw [entries_announcements hlen, flatMap_filter_key x.state.lazyPushQueue.sorted]
    rfl
  · obtain ⟨row, hrow, hmap⟩ := mem_flatMap.mp hmessage
    obtain ⟨chunk, hchunk, rfl⟩ := mem_map.mp hmap
    obtain ⟨hne, hle, hqueued⟩ := mem_chunks hlen hchunk
    have hmax : chunk.length ≤ maxIHaveEntries := hqueued.trans (hqueue.bounded row hrow)
    refine ⟨hne, hmax, (frameSize_le hmax).trans_lt ?_⟩
    have hfit := (Nat.mul_le_mul_right _ hle).trans (Nat.div_mul_le_self _ _)
    rw [hsize] at hfit
    unfold Topic.postcardHeaderSize at hfit
    unfold Gossip.minMaxMessageSize at hmin
    omega

/-- A node with one lazy peer, after an announcement. -/
def announced : Node Nat :=
  lazyPush ⟨(State.new 0 .default (4096 - Topic.postcardHeaderSize)).addLazy 1, []⟩
    ⟨.zero 32, [], .swarm ⟨0⟩⟩ 0

theorem dispatch_complete_announced : ∃ sent : List (Nat × List IHave),
    (onDispatchTimer announced).out = announced.out ++
      sent.map (fun message => OutEvent.sendMessage message.1 (.iHave message.2)) ∧
    (sent.filter fun message => message.1 = 1).flatMap Prod.snd = [⟨.zero 32, ⟨0⟩⟩] := by
  obtain ⟨sent, hsent, hall, -⟩ := dispatch_complete .default announced rfl
    (.lazyPush _ _ _ .empty)
  exact ⟨sent, hsent, hall 1⟩

end Node
end Krikos.Gossip.PlumTree
