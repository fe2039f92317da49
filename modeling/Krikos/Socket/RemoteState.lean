import Krikos.Lib.Run
import Mathlib.Data.Finset.Card

/-!
# Socket.RemoteState

Opening the selected path on all connections, and closing redundant ones (`remote_state.rs`). The
closings are decided from the paths of before the call, so that one IP path stays exactly if
something keeps it (`one_ip_path_stays_iff`). An opening that
fails for lack of ids queues the address, whether or not it is queued already. The queue has each
address once if none is queued twice (`pending_bounded`), and a retry makes it longer if two
connections are exhausted (`retry_doubles`).
-/

namespace Krikos.Socket

open Lib List

variable {A : Type} [DecidableEq A]

/-- No two paths have the same address, so that it stands for the id of its path. -/
structure ConnectionState (A : Type) where
  isServer : Bool
  paths : List A

namespace ConnectionState
variable (isIp : A → Bool) (conn : ConnectionState A) (selected : A)

/-- Opening the address is left to the server, or not needed, otherwise. -/
def lacks (addr : A) : Bool := !conn.isServer && addr ∉ conn.paths

def redundant (path : A) : Bool :=
  !conn.isServer && isIp path && path ≠ selected && decide ((conn.paths.filter isIp).length > 1)

/-- Closing fails for the last open path. A path that the same call has opened is open. -/
def closePath (opened : Bool) (paths : List A) (path : A) : List A :=
  if (paths.erase path).isEmpty && !opened then paths else paths.erase path

/-- The paths of before the call that are open after it. -/
def applySelectedPath (succeeds : Bool) : List A :=
  conn.paths.foldl (fun paths path =>
    if conn.redundant isIp selected path then closePath (conn.lacks selected && succeeds) paths path
    else paths) conn.paths

/-- There is one IP path, or one is selected, or there is no other path that could stay. -/
def Keeps (succeeds : Bool) : Prop :=
  (conn.paths.filter isIp).length = 1 ∨ (selected ∈ conn.paths ∧ isIp selected = true) ∨
    (∀ path ∈ conn.paths, isIp path = true) ∧ (conn.lacks selected && succeeds) = false

variable {isIp conn selected} {opened : Bool} {l paths : List A} {p : A → Bool} {a : A}

/-- While some path stays open, every other one is closed that shall be. -/
lemma mem_foldl_closePath (hnodup : paths.Nodup)
    (hopen : opened = true ∨ ∃ kept ∈ paths, ∀ path ∈ l, p path = true → path ≠ kept) :
    a ∈ l.foldl (fun paths path => if p path then closePath opened paths path else paths) paths ↔
      a ∈ paths ∧ ¬ (a ∈ l ∧ p a = true) := by
  induction l generalizing paths with
  | nil => simp
  | cons path l ih =>
    rw [foldl_cons]
    by_cases hpath : p path = true
    · have hrest : opened = true ∨
          ∃ kept ∈ paths.erase path, ∀ path ∈ l, p path = true → path ≠ kept := by
        refine hopen.imp_right fun ⟨kept, hkept, hp⟩ => ?_
        obtain ⟨hne, hrest⟩ := forall_mem_cons.mp hp
        exact ⟨kept, (mem_erase_of_ne (hne hpath).symm).mpr hkept, hrest⟩
      have hclose : closePath opened paths path = paths.erase path := by
        rcases hrest with rfl | ⟨kept, hkept, -⟩
        · simp [closePath]
        · simp [closePath, ne_nil_of_mem hkept]
      rw [if_pos hpath, hclose, ih (hnodup.erase _) hrest, hnodup.mem_erase_iff]
      grind
    · rw [if_neg hpath, ih hnodup (hopen.imp_right fun ⟨kept, hkept, hp⟩ =>
        ⟨kept, hkept, (forall_mem_cons.mp hp).2⟩)]
      grind

lemma mem_applySelectedPath {succeeds : Bool} (hnodup : conn.paths.Nodup)
    (hopen : (conn.lacks selected && succeeds) = true ∨
      ∃ kept ∈ conn.paths, conn.redundant isIp selected kept = false)
    (ha : a ∈ conn.paths) : a ∈ conn.applySelectedPath isIp selected succeeds ↔
      conn.redundant isIp selected a = false := by
  rw [applySelectedPath, mem_foldl_closePath hnodup]
  · simp [ha]
  · refine hopen.imp_right fun ⟨kept, hkept, hstays⟩ => ⟨kept, hkept, ?_⟩
    rintro path - hpath rfl
    rw [hstays] at hpath
    cases hpath

/-- The last path cannot be closed. -/
lemma foldl_closePath_last (hl : l ≠ []) (hp : ∀ path ∈ l, p path = true) :
    ∃ path ∈ l, l.foldl (fun paths path =>
      if p path then closePath false paths path else paths) l = [path] := by
  induction l with
  | nil => exact absurd rfl hl
  | cons path l ih =>
    obtain ⟨hpath, hrest⟩ := forall_mem_cons.mp hp
    rw [foldl_cons, if_pos hpath, closePath, erase_cons_head]
    cases l with
    | nil => exact ⟨path, mem_cons_self, rfl⟩
    | cons other l =>
      obtain ⟨last, hlast, heq⟩ := ih (cons_ne_nil _ _) hrest
      exact ⟨last, mem_cons_of_mem _ hlast, heq⟩

/-- Exactly one IP path stays open of those of before the call, the selected one if it is one of
them. -/
def OneStays (isIp : A → Bool) (conn : ConnectionState A) (selected : A) (succeeds : Bool) : Prop :=
  ∃ path ∈ conn.paths, isIp path = true ∧
    (∀ other ∈ conn.paths, isIp other = true →
      (other ∈ conn.applySelectedPath isIp selected succeeds ↔ other = path)) ∧
    (selected ∈ conn.paths → isIp selected = true → path = selected)

variable {succeeds : Bool}

section
variable (hnodup : conn.paths.Nodup) (hclient : conn.isServer = false)
include hnodup hclient

lemma oneStays_of_keeps (hip : ∃ path ∈ conn.paths, isIp path = true)
    (hkeeps : conn.Keeps isIp selected succeeds) : OneStays isIp conn selected succeeds := by
  by_cases hmany : (conn.paths.filter isIp).length > 1
  · by_cases hsel : selected ∈ conn.paths ∧ isIp selected = true
    · refine ⟨selected, hsel.1, hsel.2, fun other hother hoip => ?_, fun _ _ => rfl⟩
      rw [mem_applySelectedPath hnodup (.inr ⟨selected, hsel.1, by simp [redundant]⟩) hother]
      simp [redundant, hclient, hoip, hmany]
    · obtain ⟨hall, hnew⟩ := (hkeeps.resolve_left (by omega)).resolve_left hsel
      have hred : ∀ path ∈ conn.paths, conn.redundant isIp selected path = true := by
        intro path hpath
        have hne : path ≠ selected := by
          rintro rfl
          exact hsel ⟨hpath, hall path hpath⟩
        simp [redundant, hclient, hall path hpath, hne, hmany]
      obtain ⟨first, hfirst, -⟩ := hip
      obtain ⟨path, hpath, hlast⟩ := foldl_closePath_last (ne_nil_of_mem hfirst) hred
      refine ⟨path, hpath, hall path hpath, fun other _ _ => ?_, fun h h' => absurd ⟨h, h'⟩ hsel⟩
      rw [applySelectedPath, hnew, hlast, mem_singleton]
  · obtain ⟨path, hpath, hpip⟩ := hip
    have hmem := mem_filter.mpr ⟨hpath, hpip⟩
    obtain ⟨only, hone⟩ := length_eq_one_iff.mp (by have := length_pos_of_mem hmem; omega :
      (conn.paths.filter isIp).length = 1)
    have honly : ∀ other ∈ conn.paths, isIp other = true → other = only :=
      fun other hother hoip => mem_singleton.mp (hone ▸ mem_filter.mpr ⟨hother, hoip⟩)
    obtain rfl := honly path hpath hpip
    refine ⟨path, hpath, hpip, fun other hother hoip => ?_, fun h h' => (honly _ h h').symm⟩
    rw [mem_applySelectedPath hnodup (.inr ⟨path, hpath, by simp [redundant, hmany]⟩) hother]
    simp [redundant, hmany, honly other hother hoip]

lemma keeps_of_oneStays (h : OneStays isIp conn selected succeeds) :
    conn.Keeps isIp selected succeeds := by
  obtain ⟨path, hpath, hpip, hstays, hsel⟩ := h
  by_contra hkeeps
  simp only [Keeps, not_or, not_and] at hkeeps
  obtain ⟨hone, hselected, hopen⟩ := hkeeps
  have hmany : (conn.paths.filter isIp).length > 1 := by
    have := length_pos_of_mem (mem_filter.mpr ⟨hpath, hpip⟩)
    omega
  have hne : path ≠ selected := by
    rintro rfl
    exact hselected hpath hpip
  -- Another path stays open, or the selected one was opened, so that each closing succeeds.
  have hcloses : (conn.lacks selected && succeeds) = true ∨
      ∃ kept ∈ conn.paths, conn.redundant isIp selected kept = false := by
    by_cases hall : ∀ path ∈ conn.paths, isIp path = true
    · exact .inl (by simpa using hopen hall)
    · push Not at hall
      obtain ⟨other, hother, hrelay⟩ := hall
      exact .inr ⟨other, hother, by simp [redundant, hrelay]⟩
  have hclosed := (mem_applySelectedPath hnodup hcloses hpath).mp ((hstays path hpath hpip).mpr rfl)
  simp [redundant, hclient, hpip, hne, hmany] at hclosed

end

/-- Exactly one of the IP paths of a client stays, the selected one if it is one of them, exactly if
something keeps one. -/
theorem one_ip_path_stays_iff (isIp : A → Bool) (conn : ConnectionState A) (selected : A)
    (succeeds : Bool) (hnodup : conn.paths.Nodup) (hclient : conn.isServer = false)
    (hip : ∃ path ∈ conn.paths, isIp path = true) :
    OneStays isIp conn selected succeeds ↔ conn.Keeps isIp selected succeeds :=
  ⟨keeps_of_oneStays hnodup hclient, oneStays_of_keeps hnodup hclient hip⟩

/-- A relay path and two IP paths. -/
def relayed : ConnectionState Nat := ⟨false, [0, 4, 6]⟩

theorem one_ip_path_stays_selected : relayed.applySelectedPath (· > 0) 6 true = [0, 6] ∧
    OneStays (· > 0) relayed 6 true ∧ ¬ OneStays (· > 0) relayed 8 true := by
  refine ⟨by decide, (one_ip_path_stays_iff (· > 0) relayed 6 true (by decide) rfl
    ⟨4, by decide, rfl⟩).mpr (.inr (.inl ⟨by decide, rfl⟩)), fun h => ?_⟩
  have hkeeps := (one_ip_path_stays_iff (· > 0) relayed 8 true (by decide) rfl
    ⟨4, by decide, rfl⟩).mp h
  simp [Keeps, relayed] at hkeeps

/-- If a path is selected that the connection does not have, all IP paths are closed. -/
theorem no_ip_path_stays : relayed.applySelectedPath (· > 0) 8 false = [0] := by decide

end ConnectionState

/-- The state of a remote endpoint, with the attempts that the handler has still to make. -/
structure RemoteState (A : Type) where
  connections : List (ConnectionState A) := []
  pendingOpenPaths : List A := []
  attempts : List (ConnectionState A × A) := []

inductive RemoteEvent (A : Type) where
  /-- `apply_selected_path` -/
  | select (addr : A)
  /-- Path events, and connections that close. -/
  | change (connections : List (ConnectionState A))
  /-- The retry timer expires. -/
  | retry
  /-- The next attempt of the handler, which may fail for lack of ids. -/
  | openPath (exhausted : Bool)

/-- The addresses whose opening an event requests. -/
def RemoteEvent.requested : RemoteEvent A → List A
  | .select addr => [addr]
  | _ => []

namespace RemoteState
variable (s : RemoteState A)

def openPathOnAllConns (addr : A) : List (ConnectionState A × A) :=
  s.connections.map fun conn => (conn, addr)

def openPathOnConn (conn : ConnectionState A) (addr : A) (exhausted : Bool) : RemoteState A :=
  if conn.lacks addr && exhausted then
    { s with pendingOpenPaths := s.pendingOpenPaths ++ [addr] }
  else s

-- the actor handles one event after the other
def step (event : RemoteEvent A) : RemoteState A :=
  match s.attempts, event with
  | (conn, addr) :: rest, .openPath exhausted =>
    openPathOnConn { s with attempts := rest } conn addr exhausted
  | [], .select addr => { s with attempts := s.openPathOnAllConns addr }
  | [], .change connections => { s with connections := connections }
  | [], .retry => { s with
    pendingOpenPaths := [], attempts := s.pendingOpenPaths.flatMap s.openPathOnAllConns }
  | _, _ => s

/-- An attempt fails only for an address that is not queued. -/
def Fresh : RemoteEvent A → Prop
  | .openPath true => ∀ target ∈ s.attempts.head?, target.2 ∉ s.pendingOpenPaths
  | _ => True

/-- The queue has some of the addresses, each once, and the handler opens no other ones. -/
structure Within (addrs : List A) : Prop where
  nodup : s.pendingOpenPaths.Nodup
  pending : ∀ addr ∈ s.pendingOpenPaths, addr ∈ addrs
  attempts : ∀ target ∈ s.attempts, target.2 ∈ addrs

variable {s} {addrs : List A} {events : List (RemoteEvent A)}

lemma Within.step (h : s.Within addrs) {event : RemoteEvent A} (hfresh : s.Fresh event)
    (hevent : ∀ addr ∈ event.requested, addr ∈ addrs) : (s.step event).Within addrs := by
  unfold RemoteState.step
  split
  · rename_i conn addr rest exhausted hattempts
    obtain ⟨haddr, hrest⟩ := forall_mem_cons.mp (hattempts ▸ h.attempts)
    unfold openPathOnConn
    split
    · rename_i hopens
      obtain ⟨-, rfl⟩ := Bool.and_eq_true_iff.mp hopens
      have hnew : addr ∉ s.pendingOpenPaths := hfresh (conn, addr) (by rw [hattempts]; rfl)
      refine ⟨nodup_append'.mpr ⟨h.nodup, nodup_singleton _, by simpa using hnew⟩, ?_, hrest⟩
      exact forall_mem_append.mpr ⟨h.pending, forall_mem_singleton.mpr haddr⟩
    · exact ⟨h.nodup, h.pending, hrest⟩
  · refine ⟨h.nodup, h.pending, fun target htarget => ?_⟩
    obtain ⟨conn, -, rfl⟩ := mem_map.mp htarget
    exact hevent _ mem_cons_self
  · exact ⟨h.nodup, h.pending, h.attempts⟩
  · refine ⟨nodup_nil, fun _ hmem => absurd hmem not_mem_nil, fun target htarget => ?_⟩
    obtain ⟨addr, haddr, htarget⟩ := mem_flatMap.mp htarget
    obtain ⟨conn, -, rfl⟩ := mem_map.mp htarget
    exact h.pending addr haddr
  · exact h

lemma Within.run (h : s.Within addrs) (hfresh : Along RemoteState.step Fresh s events)
    (hevents : ∀ addr ∈ events.flatMap RemoteEvent.requested, addr ∈ addrs) :
    (Lib.run RemoteState.step s events).Within addrs := by
  induction events generalizing s with
  | nil => exact h
  | cons event events ih =>
    obtain ⟨hfirst, hrest⟩ := forall_mem_append.mp (flatMap_cons ▸ hevents)
    exact ih (h.step hfresh.1 hfirst) hfresh.2 hrest

lemma Within.length_le (h : s.Within addrs) : s.pendingOpenPaths.length ≤ addrs.toFinset.card := by
  rw [← toFinset_card_of_nodup h.nodup]
  refine Finset.card_le_card fun addr haddr => ?_
  exact mem_toFinset.mpr (h.pending addr (mem_toFinset.mp haddr))

/-- The queue has at most as many entries as there are addresses whose opening was
requested, and a retry does not make it longer, if no address is queued that is in the queue. -/
theorem pending_bounded (events : List (RemoteEvent A)) (h : Along step Fresh {} events) :
    let s := run step {} events
    s.pendingOpenPaths.length ≤ (events.flatMap RemoteEvent.requested).toFinset.card ∧
      ∀ outcomes : List Bool, s.attempts = [] →
        Along step Fresh s (.retry :: outcomes.map .openPath) →
        (run step s (.retry :: outcomes.map .openPath)).pendingOpenPaths.length ≤
          s.pendingOpenPaths.length := by
  have hnew : ({} : RemoteState A).Within (events.flatMap RemoteEvent.requested) :=
    ⟨nodup_nil, by simp, by simp⟩
  have hrun := hnew.run h fun _ haddr => haddr
  refine ⟨hrun.length_le, fun outcomes hidle hretry => ?_⟩
  have hqueue : (run step {} events).Within (run step {} events).pendingOpenPaths :=
    ⟨hrun.nodup, fun _ haddr => haddr, by simp [hidle]⟩
  have hopened : (RemoteEvent.retry :: outcomes.map .openPath).flatMap
      (RemoteEvent.requested (A := A)) = [] := by
    simp [RemoteEvent.requested, flatMap_map]
  exact (hqueue.run hretry (by simp [hopened])).length_le.trans (toFinset_card_le _)

theorem pending_bounded_one :
    (run step {} [.change [⟨false, [0]⟩], .select 1, .openPath true]).pendingOpenPaths.length ≤ 1 ∧
      (run step {} [.change [⟨false, [0]⟩], .select 1, .openPath true, .retry,
        .openPath true]).pendingOpenPaths.length ≤ 1 := by
  have h := pending_bounded [.change [⟨false, [0]⟩], .select 1, .openPath true]
    (by simp [Along, Fresh, step, openPathOnAllConns])
  exact ⟨h.1, h.2 [true] rfl
    (by simp [Along, Fresh, step, openPathOnAllConns, openPathOnConn, run, ConnectionState.lacks])⟩

/-- With two exhausted connections an address is queued twice, and four times after a retry. -/
theorem retry_doubles :
    let s : RemoteState Nat := run step {} [.change [⟨false, []⟩, ⟨false, []⟩], .select 1,
      .openPath true, .openPath true]
    s.attempts = [] ∧ s.pendingOpenPaths = [1, 1] ∧
      (run step s [.retry, .openPath true, .openPath true, .openPath true,
        .openPath true]).pendingOpenPaths = [1, 1, 1, 1] := by
  decide

end RemoteState
end Krikos.Socket
