import Krikos.Identity.FrozenHistory

/-!
# Identity.SyncSessions

Synchronization sessions over a store that goes on accepting events. Each page is a slice of one
frozen history, each response carries a beginning of its page, and its continuation goes on after
it, so that a session delivers a beginning of that history.
-/

namespace Krikos.Identity

open Lib StoredAccount List AuthorizedEvent

variable {c : Primitives} {revision : AccountRevision}

namespace StoredAccount
variable {a : StoredAccount c}

/-! ## Pages -/

variable (index : Nat) (events : List (AuthorizedEvent c))

def numbered : List (EventHistoryRecord c) :=
  (events.zipIdx index).map fun item => ⟨item.2, item.1⟩

lemma numbered_cons (event : AuthorizedEvent c) (rest : List (AuthorizedEvent c)) :
    numbered index (event :: rest) = ⟨index, event⟩ :: numbered (index + 1) rest := rfl

lemma map_event_numbered : (numbered index events).map EventHistoryRecord.event = events := by
  rw [numbered, map_map]
  exact zipIdx_map_fst index events

lemma take_numbered (index count : Nat) (events : List (AuthorizedEvent c)) :
    (numbered index events).take count = numbered index (events.take count) := by
  induction events generalizing index count with
  | nil => simp [numbered]
  | cons event rest ih =>
    cases count with
    | zero => rfl
    | succ count => rw [numbered_cons, take_succ_cons, take_succ_cons, ih, numbered_cons]

lemma cursor_getLast?_numbered {index : Nat} {events : List (AuthorizedEvent c)}
    {record : EventHistoryRecord c} (h : (numbered index events).getLast? = some record) :
    record.cursor + 1 = index + events.length := by
  rw [numbered, getLast?_map, getLast?_zipIdx, Option.map_map] at h
  obtain ⟨event, hevent, rfl⟩ := Option.map_eq_some_iff.mp h
  have hpos := length_pos_of_mem (mem_of_getLast? hevent)
  simp only [Function.comp_apply]
  omega

/-- A page is a beginning of what is left, all of it when no cursor is returned. -/
def Fills (maximumRecords index : Nat) (records : List (EventHistoryRecord c))
    (rest : List (AuthorizedEvent c)) (out : List (EventHistoryRecord c))
    (next : Option EventHistoryCursor) : Prop :=
  ∃ count, out = records ++ numbered index (rest.take count) ∧ out.length ≤ maximumRecords ∧
    (next = none → rest.take count = rest) ∧ (out = [] → next = none)

lemma fillPage_ok {wire : SyncWire c}
    {maximumRecords maximumBytes index : Nat} {records out : List (EventHistoryRecord c)}
    {rest : List (AuthorizedEvent c)} {next : Option EventHistoryCursor}
    (h : fillPage wire revision maximumRecords maximumBytes records index rest = .ok (out, next))
    (hsome : maximumRecords ≠ 0) (hle : records.length ≤ maximumRecords) :
    Fills maximumRecords index records rest out next := by
  induction rest generalizing records index with
  | nil =>
    obtain ⟨rfl, rfl⟩ := Prod.mk.inj (Except.ok.inj h)
    exact ⟨0, (append_nil _).symm, hle, fun _ => rfl, fun _ => rfl⟩
  | cons event rest ih =>
    have hstop : records ≠ [] → Except.ok (records, lastCursor revision records) =
        (Except.ok (out, next) : Except IdentityError _) →
        Fills maximumRecords index records (event :: rest) out next := by
      intro hne heq
      obtain ⟨rfl, rfl⟩ := Prod.mk.inj (Except.ok.inj heq)
      refine ⟨0, (append_nil _).symm, hle, fun hnone => ?_, fun hnil => absurd hnil hne⟩
      rw [lastCursor, Option.map_eq_none_iff, getLast?_eq_none_iff] at hnone
      exact absurd hnone hne
    unfold fillPage at h
    dsimp only at h
    split at h
    · rename_i hfull
      refine hstop (fun hnil => hsome ?_) h
      rw [← hfull, hnil]
      rfl
    · rename_i hroom
      split at h
      · split at h
        · cases h
        · rename_i hne
          exact hstop (fun hnil => hne (by rw [hnil]; rfl)) h
      · have hlen : (records ++ [(⟨index, event⟩ : EventHistoryRecord c)]).length ≤
            maximumRecords := by
          rw [length_append, length_singleton]
          omega
        obtain ⟨count, rfl, hmax, hall, hempty⟩ := ih h hlen
        refine ⟨count + 1, ?_, hmax, fun hnone => ?_, hempty⟩
        · rw [take_succ_cons, numbered_cons, append_assoc, singleton_append]
        · rw [take_succ_cons, hall hnone]

/-- What a page is of the history of its revision, from the position after the cursor on. -/
structure Slices (a : StoredAccount c) (revision : AccountRevision) (start maximumRecords : Nat)
    (page : EventHistoryPage c) : Prop where
  intro ::
  slice : ∃ events count, a.orderedHistory revision.heads = .ok events ∧
    page.records = numbered start ((events.drop start).take count) ∧
    (page.nextCursor = none → (events.drop start).take count = events.drop start)
  bounded : page.records.length ≤ maximumRecords
  finished : page.records = [] → page.nextCursor = none

lemma eventHistory_ok {wire : SyncWire c} {after : Option EventHistoryCursor}
    {maximumRecords maximumBytes : Nat} {page : EventHistoryPage c}
    (h : a.eventHistory wire revision after maximumRecords maximumBytes = .ok page) :
    ∃ start, historyStart revision after = .ok start ∧
      a.Slices revision start maximumRecords page := by
  simp only [eventHistory, bind_ok, reject_ok, pure_ok, not_or] at h
  obtain ⟨_, -, _, ⟨hsome, -⟩, _, -, events, heven, start, hstar, _, -, ⟨records, next⟩, hfill,
    rfl⟩ := h
  obtain ⟨count, hrec, hmax, hall, hempty⟩ := fillPage_ok hfill hsome (Nat.zero_le _)
  exact ⟨start, hstar, ⟨events, count, heven, hrec, hall⟩, hmax, hempty⟩

end StoredAccount

/-! ## Responses -/

namespace SyncResponse

def events : SyncResponse c → List (AuthorizedEvent c)
  | .frame sent => sent.events
  | .complete _ _ => []

def continuation : SyncResponse c → Option SyncCursor
  | .frame sent => sent.continuation
  | .complete _ _ => none

end SyncResponse

variable {heads : List EventId}

lemma sortedHeads_ok {sorted : SyncHeads}
    (h : sortedHeads heads = .ok sorted) : sorted.asSlice.Perm heads := by
  revert h
  fun_cases sortedHeads heads with
  | case1 =>
    rintro ⟨⟩
    exact perm_sortByKey
  | _ => nofun

variable {wire : SyncWire c} {key : CursorKey} {accountId : AccountId} {cursor : SyncCursor}

lemma SyncCursor.issue_ok {nextItem deliveredBytes : Nat}
    (h : SyncCursor.issue wire key accountId heads nextItem deliveredBytes = .ok cursor) :
    cursor.sourceHeads.asSlice.Perm heads ∧ cursor.nextItem = nextItem ∧
      cursor.deliveredBytes = deliveredBytes := by
  unfold SyncCursor.issue at h
  split at h
  · obtain ⟨sorted, hsor, h⟩ := bind_ok.mp h
    obtain rfl := pure_ok.mp h
    exact ⟨sortedHeads_ok hsor, rfl, rfl⟩
  · cases h

variable {events : List (AuthorizedEvent c)}

lemma SyncFrame.new_ok {continuation : Option SyncCursor} {frame : SyncFrame c}
    (h : SyncFrame.new wire accountId heads events continuation = .ok frame) :
    frame.events = events ∧ frame.continuation = continuation := by
  simp only [SyncFrame.new, bind_ok, pure_ok] at h
  obtain ⟨_, -, _, -, _, -, _, -, rfl⟩ := h
  exact ⟨rfl, rfl⟩

/-- The response fits the request, and the meter reads it. -/
structure SyncResponseBudget.Fits (wire : SyncWire c) (budget : SyncResponseBudget c)
    (response : SyncResponse c) : Prop where
  bytes : wire.responseBytes response ≤ budget.maximumBytes
  metered : ∃ responseBytes, budget.responseMeter response = .ok responseBytes

variable {budget : SyncResponseBudget c}

lemma boundedSyncResponse_ok {response served : SyncResponse c}
    (h : boundedSyncResponse wire response budget = .ok served) :
    served = response ∧ budget.Fits wire response := by
  simp only [boundedSyncResponse, SyncResponseBudget.validateEncoded, SyncResponse.canonicalBytes,
    bind_ok, reject_ok, pure_ok, not_lt] at h
  obtain ⟨_, ⟨encoded, ⟨_, -, rfl⟩, hbyt⟩, responseBytes, hmet, _, -, rfl⟩ := h
  exact ⟨rfl, hbyt, responseBytes, hmet⟩

/-- The continuation goes on after the events of the response and counts its bytes. -/
structure SyncCursor.Continues (cursor : SyncCursor) (revision : AccountRevision) (nextItem : Nat)
    (budget : SyncResponseBudget c) (response : SyncResponse c) : Prop where
  heads : cursor.sourceHeads.asSlice.Perm revision.heads
  nextItem : cursor.nextItem = nextItem
  counted : ∃ responseBytes, budget.responseMeter response = .ok responseBytes ∧
    cursor.deliveredBytes =
      budget.previouslyDelivered + budget.currentRequestBytes + responseBytes

variable {response : SyncResponse c}

lemma stabilize_ok {nextItem rounds delivered : Nat}
    (h : stabilize wire key revision nextItem events budget rounds delivered = .ok response) :
    response.events = events ∧ ∃ cursor, response.continuation = some cursor ∧
      cursor.Continues revision nextItem budget response := by
  induction rounds generalizing delivered with
  | zero => cases h
  | succ rounds ih =>
    simp only [stabilize, bind_ok] at h
    obtain ⟨cursor, hcursor, frame, hfram, _, -, responseBytes, hmet, consumed, hcons,
      nextDelivered, hnext, _, -, h⟩ := h
    split at h
    · rename_i hstab
      obtain rfl := pure_ok.mp h
      obtain ⟨hhead, hitem, hdelivered⟩ := SyncCursor.issue_ok hcursor
      obtain ⟨heven, hcontinuation⟩ := SyncFrame.new_ok hfram
      refine ⟨heven, cursor, hcontinuation, hhead, hitem, responseBytes, hmet, ?_⟩
      rw [hdelivered, ← hstab, checkedAdd_ok hnext, checkedAdd_ok hcons]
    · exact ih h

/-- What a response with events has of the records that it was built from. -/
structure Answers (wire : SyncWire c) (revision : AccountRevision) (budget : SyncResponseBudget c)
    (records : List (EventHistoryRecord c)) (hasMore : Bool) (response : SyncResponse c) :
    Prop where
  events : response.events = records.map EventHistoryRecord.event
  fits : budget.Fits wire response
  last : hasMore = false → response.continuation = none
  more : hasMore = true → ∃ record cursor, records.getLast? = some record ∧
    response.continuation = some cursor ∧
    cursor.Continues revision (record.cursor + 1) budget response

variable {records : List (EventHistoryRecord c)}

lemma responseWith_ok {hasMore : Bool}
    (h : responseWith wire key accountId revision budget records hasMore = .ok response) :
    Answers wire revision budget records hasMore response := by
  simp only [responseWith, bind_ok] at h
  obtain ⟨nextItem, hitem, built, hbuil, h⟩ := h
  obtain ⟨rfl, hfits⟩ := boundedSyncResponse_ok h
  cases hasMore with
  | false =>
    simp only [Bool.false_eq_true, if_false] at hbuil
    obtain ⟨frame, hfram, rfl⟩ := map_ok.mp hbuil
    obtain ⟨heven, hcontinuation⟩ := SyncFrame.new_ok hfram
    exact ⟨heven, hfits, fun _ => hcontinuation, nofun⟩
  | true =>
    simp only [if_true, bind_ok, okOr_ok, buildStableSyncResponse] at hbuil
    obtain ⟨item, rfl, delivered, -, hstab⟩ := hbuil
    obtain ⟨heven, cursor, hcontinuation, hcon⟩ := stabilize_ok hstab
    refine ⟨heven, hfits, fun hfal => Bool.noConfusion hfal, fun _ => ?_⟩
    cases hlast : records.getLast? with
    | none =>
      rw [hlast] at hitem
      cases hitem
    | some record =>
      rw [hlast] at hitem
      obtain ⟨next, hnext, hsome⟩ := bind_ok.mp hitem
      obtain rfl : next = item := Option.some.inj (pure_ok.mp hsome)
      obtain rfl : next = record.cursor + 1 := checkedAdd_ok hnext
      exact ⟨record, cursor, rfl, hcontinuation, hcon⟩

lemma fitResponse_ok {hasMore : Bool}
    (h : fitResponse wire key accountId revision budget records hasMore = .ok response) :
    ∃ kept more, Answers wire revision budget (records.take kept) more response ∧
      (more = false → records.take kept = records ∧ hasMore = false) := by
  fun_induction fitResponse wire key accountId revision budget records hasMore with
  | case1 records hasMore served hserv =>
    obtain rfl := Except.ok.inj h
    refine ⟨records.length, hasMore, ?_, fun hlast => ⟨take_length, hlast⟩⟩
    rw [take_length]
    exact responseWith_ok hserv
  | case2 records hasMore resource actual maximum herr hmany ih =>
    obtain ⟨kept, more, hans, hlast⟩ := ih h
    rw [dropLast_eq_take, take_take] at hans
    exact ⟨_, more, hans, fun hfal => absurd (hlast hfal).2 (by simp)⟩
  | case3 | case4 => cases h

/-! ## One request -/

lemma StoredAccount.snapshot_ok {a : StoredAccount c} {snapshot : AccountSnapshot c}
    (h : a.snapshot = .ok snapshot) :
    snapshot.state = a.projection ∧ snapshot.revision = a.projection.revisionToken := by
  simp only [StoredAccount.snapshot, bind_ok, reject_ok, pure_ok] at h
  obtain ⟨_, -, _, -, rfl⟩ := h
  exact ⟨rfl, rfl⟩

/-- What the response to a request has of the history of the revision, from a position on. -/
structure Delivers (wire : SyncWire c) (read : StoredAccount c) (revision : AccountRevision)
    (start : Nat) (budget : SyncResponseBudget c) (maximumEvents : Nat)
    (response : SyncResponse c) : Prop where
  history : ∃ events, read.orderedHistory revision.heads = .ok events ∧
    response.events <+: events.drop start ∧
    (response.continuation = none → response.events = events.drop start)
  bounded : response.events.length ≤ maximumEvents
  fits : budget.Fits wire response
  continues : ∀ cursor, response.continuation = some cursor →
    cursor.Continues revision (start + response.events.length) budget response

lemma completeAt_ok (h : SyncResponse.completeAt accountId heads = .ok response) :
    response.events = [] ∧ response.continuation = none := by
  simp only [SyncResponse.completeAt, bind_ok, pure_ok] at h
  obtain ⟨_, -, rfl⟩ := h
  exact ⟨rfl, rfl⟩

variable {after : Option EventHistoryCursor} {request : SyncRequest}

lemma serveFrom_ok {read : StoredAccount c}
    (h : serveFrom wire key read request revision after budget = .ok response)
    (hbehind : ¬ (request.continuation.isNone ∧ request.knownHeads.asSlice = revision.heads)) :
    ∃ start, historyStart revision after = .ok start ∧
      Delivers wire read revision start budget request.maxEvents response := by
  unfold serveFrom at h
  rw [if_neg hbehind] at h
  obtain ⟨page, hpage, h⟩ := bind_ok.mp h
  obtain ⟨_, -, h⟩ := bind_ok.mp h
  obtain ⟨start, hstar, hslic⟩ := eventHistory_ok hpage
  refine ⟨start, hstar, ?_⟩
  obtain ⟨events, count, heven, hrec, hall⟩ := hslic.slice
  split at h
  · rename_i hempty
    rw [List.isEmpty_iff] at hempty
    obtain ⟨built, hbuil, h⟩ := bind_ok.mp h
    obtain ⟨rfl, hfits⟩ := boundedSyncResponse_ok h
    obtain ⟨hnil, hnone⟩ := completeAt_ok hbuil
    have hdone : events.drop start = [] := by
      rw [← hall (hslic.finished hempty),
        ← map_event_numbered start ((events.drop start).take count), ← hrec,
        hempty]
      rfl
    refine ⟨⟨events, heven, ?_, fun _ => ?_⟩, ?_, hfits, fun cursor hcursor => ?_⟩
    · rw [hnil]
      exact nil_prefix
    · rw [hnil, hdone]
    · rw [hnil]
      exact Nat.zero_le _
    · rw [hnone] at hcursor
      cases hcursor
  · obtain ⟨kept, more, hans, hlast⟩ := fitResponse_ok h
    have hsent := hans.events
    rw [hrec, take_numbered, map_event_numbered] at hsent
    refine ⟨⟨events, heven, ?_, fun hnone => ?_⟩, ?_, hans.fits, fun cursor hcursor => ?_⟩
    · rw [hsent]
      exact ( take_prefix _ _).trans ( take_prefix _ _)
    · cases more with
      | true =>
        obtain ⟨_, cursor, -, hcursor, -⟩ := hans.more rfl
        rw [hnone] at hcursor
        cases hcursor
      | false =>
        obtain ⟨hkept, hmore⟩ := hlast rfl
        have hsome : page.nextCursor = none := by simpa using hmore
        rw [hans.events, hkept, hrec, map_event_numbered, hall hsome]
    · rw [hans.events, length_map]
      exact (length_take_le' _ _).trans hslic.bounded
    · cases more with
      | false =>
        rw [hans.last rfl] at hcursor
        cases hcursor
      | true =>
        obtain ⟨record, cursor', hrecor, hcursor', hcon⟩ := hans.more rfl
        obtain rfl := Option.some.inj (hcursor.symm.trans hcursor')
        rw [hrec, take_numbered] at hrecor
        rw [hsent, ← cursor_getLast?_numbered hrecor]
        exact hcon

lemma resumeAt_ok
    {delivered : Nat} (h : resumeAt wire key accountId cursor = .ok (revision, after, delivered)) :
    revision.heads = cursor.sourceHeads.asSlice ∧ delivered = cursor.deliveredBytes ∧
      (∀ start, historyStart revision after = .ok start → start = cursor.nextItem) := by
  simp only [resumeAt, AccountRevision.fromFrozenHeads, bind_ok, pure_ok, Prod.mk.injEq] at h
  obtain ⟨_, -, _, -, _, ⟨_, -, _, -, rfl⟩, rfl, rfl, rfl⟩ := h
  refine ⟨rfl, rfl, fun start hstar => ?_⟩
  split at hstar
  · rename_i hzero
    rw [hzero]
    exact (Except.ok.inj hstar).symm
  · rename_i hpos
    obtain ⟨_, -, hnext⟩ := bind_ok.mp hstar
    rw [checkedAdd_ok hnext]
    exact Nat.succ_pred_eq_of_ne_zero hpos

/-! ## Sessions -/

/-- A request with the store that its page was read from. -/
structure SyncExchange (c : Primitives) where
  request : SyncRequest
  requestBytes : Nat
  read : StoredAccount c
  response : SyncResponse c

/-- What the service of an account has besides its store. -/
structure SyncServer (c : Primitives) where
  wire : SyncWire c
  key : CursorKey
  meter : SyncResponseMeter c
  hashes : StoreHashes c
  genesis : AccountGenesis c

/-- The revision that was current at the first request, the store that the first page was read
from, the store now, and the answered requests in their order. -/
structure SyncSession (c : Primitives) where
  revision : AccountRevision
  source : StoredAccount c
  now : Session c
  exchanges : List (SyncExchange c)

namespace SyncSession

def continuation (session : SyncSession c) : Option SyncCursor :=
  session.exchanges.getLast?.bind fun exchange => exchange.response.continuation

def delivered (session : SyncSession c) : List (AuthorizedEvent c) :=
  session.exchanges.flatMap fun exchange => exchange.response.events

/-- The first request does not name the current heads as known. -/
def Behind (session : SyncSession c) : Prop :=
  ∀ exchange ∈ session.exchanges.head?,
    exchange.request.knownHeads.asSlice ≠ session.revision.heads

end SyncSession

def sessionBytes (meter : SyncResponseMeter c) : List (SyncExchange c) → Except IdentityError Nat
  | [] => .ok 0
  | exchange :: rest => do
    let responseBytes ← meter exchange.response
    let restBytes ← sessionBytes meter rest
    return exchange.requestBytes + responseBytes + restBytes

lemma sessionBytes_concat {meter : SyncResponseMeter c} {exchanges : List (SyncExchange c)}
    {exchange : SyncExchange c} {total responseBytes : Nat}
    (h : sessionBytes meter exchanges = .ok total)
    (hres : meter exchange.response = .ok responseBytes) :
    sessionBytes meter (exchanges ++ [exchange]) =
      .ok (total + exchange.requestBytes + responseBytes) := by
  induction exchanges generalizing total with
  | nil =>
    obtain rfl := Except.ok.inj h
    refine bind_ok.mpr ⟨responseBytes, hres, bind_ok.mpr ⟨0, rfl, pure_ok.mpr ?_⟩⟩
    omega
  | cons first rest ih =>
    simp only [sessionBytes, bind_ok, pure_ok] at h
    obtain ⟨firstBytes, hfir, restBytes, hrest, rfl⟩ := h
    refine bind_ok.mpr ⟨firstBytes, hfir, bind_ok.mpr ⟨_, ih hrest, pure_ok.mpr ?_⟩⟩
    omega

/-- The sessions of a requester that sends back each continuation, with any limits and known heads,
while the store accepts other requests, also between the two reads of one request. A request that
fails is not answered and leaves the session as it is. -/
inductive SyncServer.Serves (server : SyncServer c) : SyncSession c → Prop where
  | first {loading reading : Session c} {request : SyncRequest} {requestBytes : Nat}
      {response : SyncResponse c} (history : StoreHistory server.hashes server.genesis loading)
      (meanwhile : StoreRun server.hashes server.genesis loading reading)
      (initial : request.continuation = none)
      (serves : serveSyncRequestWithMeter server.wire server.key loading.stored reading.stored
        request requestBytes server.meter = .ok response) :
      server.Serves ⟨loading.stored.projection.revisionToken, reading.stored, reading,
        [⟨request, requestBytes, reading.stored, response⟩]⟩
  | next {session : SyncSession c} {loading reading : Session c} {request : SyncRequest}
      {requestBytes : Nat} {response : SyncResponse c} {cursor : SyncCursor}
      (before : server.Serves session)
      (since : StoreRun server.hashes server.genesis session.now loading)
      (meanwhile : StoreRun server.hashes server.genesis loading reading)
      (returned : session.continuation = some cursor)
      (resumes : request.continuation = some cursor)
      (serves : serveSyncRequestWithMeter server.wire server.key loading.stored reading.stored
        request requestBytes server.meter = .ok response) :
      server.Serves { session with
        now := reading
        exchanges := session.exchanges ++ [⟨request, requestBytes, reading.stored, response⟩] }

/-- The response keeps to the limits of its request, and each of its events has exactly the
signatures that are stored by then, those of the first store among them. -/
structure SyncServer.Answered (server : SyncServer c) (source : StoredAccount c)
    (exchange : SyncExchange c) : Prop where
  events : exchange.response.events.length ≤ exchange.request.maxEvents
  bytes : server.wire.responseBytes exchange.response ≤ exchange.request.maxFrameBytes
  grows : source.Grows exchange.read
  merges : ∀ event ∈ exchange.response.events, exchange.read.Merges event

/-- How far a session is: all of the history without a continuation, otherwise the events before
its next item. -/
structure SyncServer.Progress (server : SyncServer c) (session : SyncSession c)
    (history : List (EventBody × AdmissionEvidence)) : Prop where
  frozen : session.source.Frozen session.revision.heads history
  grows : session.source.Grows session.now.stored
  finished : session.continuation = none → session.delivered.map content = history
  resumes : ∀ cursor, session.continuation = some cursor →
    cursor.sourceHeads.asSlice.Perm session.revision.heads ∧
      session.delivered.map content = history.take cursor.nextItem ∧
      sessionBytes server.meter session.exchanges = .ok cursor.deliveredBytes
  answered : ∀ exchange ∈ session.exchanges, server.Answered session.source exchange

lemma append_slice {contents : List (EventBody × AdmissionEvidence)}
    {events sent : List (AuthorizedEvent c)} {start : Nat}
    (heven : events.map content = contents) (hsent : sent <+: events.drop start) :
    contents.take start ++ sent.map content = contents.take (start + sent.length) := by
  rw [take_add, ← heven, ← map_drop, prefix_iff_eq_take.mp hsent, map_take, length_take]
  congr 1
  rw [← length_map (f := content), take_eq_take_iff]
  simp

variable {loaded read : StoredAccount c}
variable {server : SyncServer c} {requestBytes : Nat}

lemma serve_first (hinit : request.continuation = none)
    (hser : serveSyncRequestWithMeter server.wire server.key loaded read request requestBytes
      server.meter = .ok response)
    (hbehind : request.knownHeads.asSlice ≠ loaded.projection.revisionToken.heads) :
    Delivers server.wire read loaded.projection.revisionToken 0
      ⟨0, requestBytes, request.maxFrameBytes, server.meter⟩ request.maxEvents response := by
  simp only [serveSyncRequestWithMeter, hinit, bind_ok] at hser
  obtain ⟨_, -, snapshot, hsnap, ⟨revision, after, delivered⟩, hstar, h⟩ := hser
  obtain ⟨rfl, rfl, rfl⟩ : snapshot.revision = revision ∧ none = after ∧ 0 = delivered := by
    simpa using hstar
  rw [(snapshot_ok hsnap).2] at h
  obtain ⟨start, hstar, hdel⟩ := serveFrom_ok h fun hknow => hbehind hknow.2
  obtain rfl := Except.ok.inj hstar
  exact hdel

lemma serve_next (hresum : request.continuation = some cursor)
    (hser : serveSyncRequestWithMeter server.wire server.key loaded read request requestBytes
      server.meter = .ok response) :
    ∃ revision : AccountRevision, revision.heads = cursor.sourceHeads.asSlice ∧
      Delivers server.wire read revision cursor.nextItem
        ⟨cursor.deliveredBytes, requestBytes, request.maxFrameBytes, server.meter⟩
        request.maxEvents response := by
  simp only [serveSyncRequestWithMeter, hresum, bind_ok] at hser
  obtain ⟨_, -, _, -, ⟨revision, after, delivered⟩, hresume, h⟩ := hser
  obtain ⟨hhead, rfl, hstar⟩ := resumeAt_ok hresume
  obtain ⟨start, hok, hdel⟩ := serveFrom_ok h (by simp [hresum])
  rw [← hstar start hok]
  exact ⟨revision, hhead, hdel⟩

namespace SyncSession
variable (session : SyncSession c) (exchange : SyncExchange c) (now : Session c)

lemma continuation_concat : SyncSession.continuation
      { session with now := now, exchanges := session.exchanges ++ [exchange] } =
        exchange.response.continuation := by
  simp [SyncSession.continuation]

lemma delivered_concat : SyncSession.delivered
      { session with now := now, exchanges := session.exchanges ++ [exchange] } =
        session.delivered ++ exchange.response.events := by
  simp [SyncSession.delivered]

end SyncSession

variable {session : SyncSession c}

lemma SyncServer.Serves.exchanges_ne_nil (h : server.Serves session) : session.exchanges ≠ [] := by
  cases h with
  | first => exact cons_ne_nil _ _
  | next => exact append_ne_nil_of_right_ne_nil _ (cons_ne_nil _ _)

lemma SyncServer.Serves.progress (h : server.Serves session) (hbehind : session.Behind) :
    ∃ history, server.Progress session history := by
  induction h with
  | first before meanwhile initial serves =>
    rename_i loading reading request requestBytes response
    have hdel := serve_first initial serves (hbehind _ rfl)
    obtain ⟨events, heven, hpref, hall⟩ := hdel.history
    obtain ⟨hfroz, hmerges⟩ := orderedHistory_ok heven
    refine ⟨events.map content, hfroz, .refl _, fun hnone => ?_, fun cursor hcursor => ?_,
      fun exchange hexc => ?_⟩
    · simpa [SyncSession.delivered] using congrArg (map content) (hall hnone)
    · obtain ⟨hhead, hitem, responseBytes, hmet, hcoun⟩ := hdel.continues cursor hcursor
      refine ⟨hhead, ?_, ?_⟩
      · rw [hitem, ← append_slice rfl hpref]
        simp [SyncSession.delivered]
      · have hnil : sessionBytes server.meter [] = .ok 0 := rfl
        rw [hcoun]
        exact sessionBytes_concat hnil hmet
    · obtain rfl := mem_singleton.mp hexc
      exact ⟨hdel.bounded, hdel.fits.bytes, .refl _, fun event hevent =>
        hmerges event (mem_of_mem_drop (hpref.subset hevent))⟩
  | next before since meanwhile returned resumes serves ih =>
    rename_i session loading reading request requestBytes response cursor
    have hbef : session.Behind := by
      intro exchange hexc
      refine hbehind exchange ?_
      rwa [head?_append_of_ne_nil _ before.exchanges_ne_nil]
    obtain ⟨history, hprogress⟩ := ih hbef
    obtain ⟨hhead, hdelivered, hbyt⟩ := hprogress.resumes cursor returned
    obtain ⟨revision, hrev, hdel⟩ := serve_next resumes serves
    obtain ⟨events, heven, hpref, hall⟩ := hdel.history
    have hgrow : session.source.Grows reading.stored :=
      (hprogress.grows.trans since.grows).trans meanwhile.grows
    obtain ⟨hfroz, hmerges⟩ := orderedHistory_ok heven
    have hsame : events.map content = history := by
      refine hprogress.frozen.eq hfroz hgrow fun head => ?_
      rw [hrev, hhead.mem_iff]
    have hslice := append_slice hsame hpref
    refine ⟨history, hprogress.frozen, hgrow, fun hnone => ?_, fun next hnext => ?_,
      fun exchange hexc => ?_⟩
    · rw [SyncSession.continuation_concat] at hnone
      rw [SyncSession.delivered_concat, map_append, hdelivered, hall hnone, map_drop, hsame,
        take_append_drop]
    · rw [SyncSession.continuation_concat] at hnext
      obtain ⟨hnextHeads, hitem, responseBytes, hmet, hcoun⟩ := hdel.continues next hnext
      refine ⟨?_, ?_, ?_⟩
      · rw [hrev] at hnextHeads
        exact hnextHeads.trans hhead
      · rw [SyncSession.delivered_concat, map_append, hdelivered, hslice, hitem]
      · rw [hcoun]
        exact sessionBytes_concat hbyt hmet
    · rcases mem_append.mp hexc with hold | hnew
      · exact hprogress.answered exchange hold
      · obtain rfl := mem_singleton.mp hnew
        exact ⟨hdel.bounded, hdel.fits.bytes, hgrow, fun event hevent =>
          hmerges event (mem_of_mem_drop (hpref.subset hevent))⟩

/-! ## Sessions that run -/

namespace SyncServer
variable {now : Session c} {next : SyncSession c}

/-- An initial request, on a store that stays as it is meanwhile. -/
def start (server : SyncServer c) (now : Session c) (request : SyncRequest) (requestBytes : Nat) :
    Option (SyncSession c) :=
  match serveSyncRequestWithMeter server.wire server.key now.stored now.stored request requestBytes
      server.meter with
  | .ok response => some ⟨now.stored.projection.revisionToken, now.stored, now,
      [⟨request, requestBytes, now.stored, response⟩]⟩
  | .error _ => none

/-- The last continuation is sent back, after an event was committed. -/
def resumeAfter (server : SyncServer c) (event : AuthorizedEvent c) (requestBytes : Nat)
    (session : SyncSession c) : Option (SyncSession c) :=
  match session.continuation, session.now.commit server.hashes server.genesis event with
  | some cursor, some now =>
    match SyncRequest.new cursor.accountId [] (some cursor) 1 1024 with
    | .error _ => none
    | .ok request =>
      match serveSyncRequestWithMeter server.wire server.key now.stored now.stored request
          requestBytes server.meter with
      | .ok response => some { session with
          now := now
          exchanges := session.exchanges ++ [⟨request, requestBytes, now.stored, response⟩] }
      | .error _ => none
  | _, _ => none

lemma serves_start (hhistory : StoreHistory server.hashes server.genesis now)
    (hinit : request.continuation = none)
    (h : server.start now request requestBytes = some session) : server.Serves session := by
  unfold start at h
  split at h
  · rename_i response hser
    obtain rfl := Option.some.inj h
    exact .first hhistory .refl hinit hser
  · cases h

lemma continuation_new {heads : List EventId}
    {continuation : Option SyncCursor} {maxEvents maxFrameBytes : Nat} {request : SyncRequest}
    (h : SyncRequest.new accountId heads continuation maxEvents maxFrameBytes = .ok request) :
    request.continuation = continuation := by
  unfold SyncRequest.new at h
  obtain ⟨known, -, h⟩ := bind_ok.mp h
  split at h
  · split at h
    · split at h
      · rw [← pure_ok.mp h]
      · cases h
    · cases h
  · cases h

lemma serves_resumeAfter {event : AuthorizedEvent c} {requestBytes : Nat}
    (hser : server.Serves session)
    (h : server.resumeAfter event requestBytes session = some next) : server.Serves next := by
  revert h
  fun_cases resumeAfter server event requestBytes session with
  | case2 cursor now hcom hcursor request hreq response hres =>
    rintro ⟨⟩
    exact .next hser (Session.run_commit hcom) .refl hcursor (continuation_new hreq) hres
  | _ => nofun

end SyncServer

namespace Toy

lemma pair_sorted : SortedBy primitives.controllerId [controller 1, controller 2] :=
  pairwise_pair.mpr (by decide +kernel)

lemma pair_satisfiable : ControlPolicy.validateSatisfiable primitives.controllerId
    plainAccount.initialPolicy [controller 1, controller 2] = .ok () := by
  decide

/-- Each of the two controllers may act alone. -/
def pairAccount : AccountGenesis primitives :=
  { plainAccount with
    initialControllers := [controller 1, controller 2]
    nonempty := cons_ne_nil _ _
    bounded := Nat.le_of_ble_eq_true rfl
    sorted := pair_sorted
    distinct := pairwise_pair.mpr (by decide)
    satisfiable := pair_satisfiable
    recoverable := rfl }

def syncWire : SyncWire primitives where
  historyBytes _ records _ := records.length
  frameBytes frame := frame.events.length
  responseBytes response := response.events.length + 1
  cursorAuthenticator _ _ _ nextItem deliveredBytes := number (nextItem + deliveredBytes)

def syncServer : SyncServer primitives where
  wire := syncWire
  key := ⟨number 1, number_one_ne_zero⟩
  meter response := .ok (syncWire.responseBytes response)
  hashes := storeHashes
  genesis := pairAccount

def twice : Option (Session primitives) := do
  let session ← Session.commit storeHashes pairAccount (firstEvent 1) ⟨.create pairAccount, [], []⟩
  session.commit storeHashes pairAccount (nextEvent 2 1 0)

/-- A first request that names the given heads as known, for one event at a time. -/
def askFor (heads : List EventId) : Option (SyncSession primitives) :=
  match twice, SyncRequest.new ⟨number 1⟩ heads none 1 1024 with
  | some session, .ok request => syncServer.start session request 8
  | _, _ => none

/-- Two pages of the two events, while an event is committed. -/
def pagedWhile (event : AuthorizedEvent primitives) : Option (SyncSession primitives) := do
  let session ← askFor []
  syncServer.resumeAfter event 9 session

lemma serves_askFor {session : SyncSession primitives} (h : askFor heads = some session) :
    syncServer.Serves session := by
  unfold askFor at h
  split at h
  · rename_i now request htwice hreq
    simp only [twice, Option.bind_eq_bind, Option.bind_eq_some_iff] at htwice
    obtain ⟨first, hfir, hsec⟩ := htwice
    exact SyncServer.serves_start (Session.history_commit (Session.history_commit .refl hfir) hsec)
      (SyncServer.continuation_new hreq) h
  · cases h

lemma serves_pagedWhile {session : SyncSession primitives} {event : AuthorizedEvent primitives}
    (h : pagedWhile event = some session) : syncServer.Serves session := by
  simp only [pagedWhile, Option.bind_eq_bind, Option.bind_eq_some_iff] at h
  obtain ⟨first, hfir, h⟩ := h
  exact SyncServer.serves_resumeAfter (serves_askFor hfir) h

end Toy

/-! ## What a session delivers -/

instance (session : SyncSession c) : Decidable session.Behind :=
  inferInstanceAs (Decidable (∀ exchange ∈ session.exchanges.head?, _))

/-- The frames of a session are, up to approvals, a beginning of the history of the revision that
was current at its first request, and all of it once there is no continuation; every response keeps
to the limits of its request and has the approvals that are stored by then, and the continuation
counts the bytes of the session exactly. Only a requester that names the current heads as known is
told at once that it is complete. -/
theorem SyncServer.Serves.delivers {server : SyncServer c} {session : SyncSession c}
    (h : server.Serves session) (hbehind : session.Behind) :
    ∃ history, session.source.Frozen session.revision.heads history ∧
      session.delivered.map content <+: history ∧
      (session.continuation = none → session.delivered.map content = history) ∧
      (∀ exchange ∈ session.exchanges, server.Answered session.source exchange) ∧
      ∀ cursor, session.continuation = some cursor →
        sessionBytes server.meter session.exchanges = .ok cursor.deliveredBytes := by
  obtain ⟨history, hprogress⟩ := h.progress hbehind
  refine ⟨history, hprogress.frozen, ?_, hprogress.finished, hprogress.answered,
    fun cursor hcursor => (hprogress.resumes cursor hcursor).2.2⟩
  cases hcontinuation : session.continuation with
  | none =>
    rw [hprogress.finished hcontinuation]
  | some cursor =>
    rw [(hprogress.resumes cursor hcontinuation).2.1]
    exact take_prefix _ _

lemma paged_runs : (Toy.pagedWhile (Toy.nextEvent 3 2 1)).any (fun session =>
    decide session.Behind && decide (session.exchanges.length = 2) &&
      decide (session.delivered.length = 2) && session.continuation.isNone) = true := by
  decide +kernel

theorem paged_delivered : ∃ session, Toy.pagedWhile (Toy.nextEvent 3 2 1) = some session ∧
    session.exchanges.length = 2 ∧ session.delivered.length = 2 ∧
    session.source.Frozen session.revision.heads (session.delivered.map content) := by
  obtain ⟨session, hsession, hcheck⟩ := (Option.any_eq_true _ _).mp paged_runs
  simp only [Bool.and_eq_true, decide_eq_true_eq, Option.isNone_iff_eq_none] at hcheck
  obtain ⟨⟨⟨hbehind, hexchanges⟩, hdelivered⟩, hnone⟩ := hcheck
  obtain ⟨history, hfrozen, -, hall, -⟩ := (Toy.serves_pagedWhile hsession).delivers hbehind
  rw [← hall hnone] at hfrozen
  exact ⟨session, hsession, hexchanges, hdelivered, hfrozen⟩

lemma converged_runs : (Toy.askFor [Toy.eventId 2]).any (fun session =>
    session.continuation.isNone && session.delivered.isEmpty &&
      decide ((session.source.orderedHistory session.revision.heads).map length = .ok 2)) =
        true := by
  decide +kernel

/-- The second controller approves the second event before its page is read. -/
lemma merged_runs : (Toy.pagedWhile (Toy.nextEvent 2 1 0 2)).any (fun session =>
    decide session.Behind && decide ((session.source.orderedHistory session.revision.heads).map
      (map fun event => event.approvals.asSlice.length) = .ok [1, 1]) &&
    decide ((session.delivered.map fun event => event.approvals.asSlice.length) = [1, 2])) =
      true := by
  decide +kernel

/-- A requester that names the current heads is complete with none of the history delivered, and
another one gets approvals that the history did not have at its first request. -/
theorem delivered_ne_history : (∃ session, Toy.syncServer.Serves session ∧
    session.continuation = none ∧ session.delivered = [] ∧
    (session.source.orderedHistory session.revision.heads).map List.length = .ok 2) ∧
    ∃ session, Toy.syncServer.Serves session ∧ session.Behind ∧
      ∀ events, session.source.orderedHistory session.revision.heads = .ok events →
        ¬ session.delivered <+: events := by
  constructor
  · obtain ⟨session, hsession, hcheck⟩ := (Option.any_eq_true _ _).mp converged_runs
    simp only [Bool.and_eq_true, decide_eq_true_eq, Option.isNone_iff_eq_none,
      List.isEmpty_iff] at hcheck
    exact ⟨session, Toy.serves_askFor hsession, hcheck.1.1, hcheck.1.2, hcheck.2⟩
  · obtain ⟨session, hsession, hcheck⟩ := (Option.any_eq_true _ _).mp merged_runs
    simp only [Bool.and_eq_true, decide_eq_true_eq] at hcheck
    obtain ⟨⟨hbehind, hsource⟩, hdelivered⟩ := hcheck
    refine ⟨session, Toy.serves_pagedWhile hsession, hbehind, fun events hevents hprefix => ?_⟩
    rw [hevents] at hsource
    have hcounts := hprefix.map fun event => event.approvals.asSlice.length
    rw [hdelivered, Except.ok.inj hsource] at hcounts
    simp at hcounts

end Krikos.Identity
