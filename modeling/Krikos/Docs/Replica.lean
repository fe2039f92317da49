import Krikos.Docs.Codec
import Krikos.Docs.Heads

/-!
# Docs.Replica

Replicas (`sync.rs`): capabilities, validation of entries, inserts, and the handling of sync
messages.

Local and remote inserts go through `insertEntry`; sync messages are handled by the reconciliation
of `Ranger`, with the validation of entries as its callback.
-/

namespace Krikos.Docs

open Lib RangeEntry

/-! ## Keys and capabilities -/

abbrev NamespaceSecret := Bytes32

abbrev Author := Bytes32

/-- The signature scheme. `verify` also fails if the public key does not parse. -/
structure Crypto where
  publicKey : Bytes32 → Bytes32
  sign : Bytes32 → Bytes → FixedBytes 64
  verify : Bytes32 → Bytes → FixedBytes 64 → Bool
  verify_sign : ∀ secret msg, verify (publicKey secret) msg (sign secret msg) = true

/-- A scheme whose secret keys are public, and whose signatures are the key and the message as a
number. -/
def Crypto.plain : Crypto where
  publicKey secret := secret
  sign secret msg := ⟨secret.1 ++ beBytes 32 (ofBeBytes msg), by simp [secret.2]⟩
  verify key msg signature := signature.1 = key.1 ++ beBytes 32 (ofBeBytes msg)
  verify_sign := by simp

inductive Capability where
  | write (secret : NamespaceSecret)
  | read (id : NamespaceId)

namespace Capability

def id (crypto : Crypto) : Capability → NamespaceId
  | .write secret => crypto.publicKey secret
  | .read id => id

/-- `none` stands for the error `ReadOnly`. -/
def secretKey : Capability → Option NamespaceSecret
  | .write secret => some secret
  | .read _ => none

/-- The kind, `Write = 1` or `Read = 2`, and the bytes of the key. -/
def raw : Capability → Byte × Bytes32
  | .write secret => (1, secret)
  | .read id => (2, id)

def fromRaw (kind : Byte) (bytes : Bytes32) : Except StoreError Capability :=
  if kind = 1 then .ok (.write bytes)
  else if kind = 2 then .ok (.read bytes)
  else .error (.capabilityKind kind)

/-- Merges another capability; the result says whether the capability was changed. -/
def merge (crypto : Crypto) (self other : Capability) : Except StoreError (Capability × Bool) :=
  if other.id crypto ≠ self.id crypto then .error .namespaceMismatch
  else
    match self, other with
    -- the only upgrade is from read-only to writable
    | .read _, .write secret => .ok (.write secret, true)
    | _, _ => .ok (self, false)

end Capability

/-! ## Entries -/

namespace Entry

def toVec (e : Entry) : Bytes :=
  e.id.bytes ++ (U64.toBeBytes e.record.len ++ (e.record.hash.1 ++ U64.toBeBytes e.record.timestamp))

/-- `validate_empty`: the empty hash if the length is 0, and a non-zero length otherwise -/
def validateEmpty (e : Entry) : Bool :=
  match decide (e.record.hash = Hash.empty), decide (e.record.len = 0) with
  | true, true => true
  | false, false => true
  | true, false => false
  | false, true => false

def sign (crypto : Crypto) (ns : NamespaceSecret) (author : Author) (e : Entry) : SignedEntry where
  signature := ⟨crypto.sign author e.toVec, crypto.sign ns e.toVec⟩
  entry := e

lemma validateEmpty_iff {e : Entry} :
    e.validateEmpty = true ↔ (e.record.hash = Hash.empty ↔ e.record.len = 0) := by
  unfold validateEmpty
  by_cases hhash : e.record.hash = Hash.empty
  · by_cases hlen : e.record.len = 0
    · simp [hhash, hlen]
    · simp [hhash, hlen]
  · by_cases hlen : e.record.len = 0
    · simp [hhash, hlen]
    · simp [hhash, hlen]

end Entry

/-- `verify` with the public keys of the namespace and the author. -/
def SignedEntry.verify {ε : Type} (crypto : Crypto) (e : SignedEntry) : Except (Fault ε) Bool :=
  match e.entry.id.ns with
  | .error f => .error f
  | .ok ns =>
    match e.entry.id.author with
    | .error f => .error f
    | .ok author => .ok (crypto.verify ns e.entry.toVec e.signature.namespaceSignature &&
        crypto.verify author e.entry.toVec e.signature.authorSignature)

/-! ## Validation -/

inductive InsertOrigin where
  | local
  | sync (peer : PeerIdBytes) (remoteContentStatus : ContentStatus)
  deriving DecidableEq

inductive ValidationFailure where
  | invalidNamespace
  | badSignature
  | tooFarInTheFuture
  | invalidEmptyEntry
  deriving DecidableEq, Repr

inductive InsertError where
  | store (e : StoreError)
  | validation (e : ValidationFailure)
  | newerEntryExists
  | entryIsEmpty
  | readOnly
  | closed
  deriving DecidableEq

/-- Ten minutes in microseconds. -/
def maxTimestampFutureShift : U64 := 10 * 60 * 1000000

/-- Whether an entry is fit to be inserted; the sum of the timestamp check wraps around. -/
def validateEntry {ε : Type} (crypto : Crypto) (now : U64) (expectedNamespace : NamespaceId)
    (entry : SignedEntry) (origin : InsertOrigin) :
    Except (Fault ε) (Except ValidationFailure Unit) :=
  match entry.entry.id.ns with
  | .error f => .error f
  | .ok ns =>
    if ns ≠ expectedNamespace then .ok (.error .invalidNamespace)
    else
      match (if origin = .local then .ok true else entry.verify crypto) with
      | .error f => .error f
      | .ok false => .ok (.error .badSignature)
      | .ok true =>
        if now + maxTimestampFutureShift < entry.entry.record.timestamp then
          .ok (.error .tooFarInTheFuture)
        else .ok (.ok ())

def DocEntry.verified (crypto : Crypto) (ns : NamespaceId) (d : DocEntry) : Bool :=
  crypto.verify ns (d.signed ns).entry.toVec d.signature.namespaceSignature &&
    crypto.verify d.author (d.signed ns).entry.toVec d.signature.authorSignature

lemma validateEntry_signed {ε : Type} (crypto : Crypto) (now : U64) (ns ns' : NamespaceId)
    (d : DocEntry) (origin : InsertOrigin) :
    validateEntry crypto now ns (d.signed ns') origin = (.ok
      (if ns' ≠ ns then .error .invalidNamespace
        else if origin ≠ .local ∧ d.verified crypto ns' = false then .error .badSignature
        else if now + maxTimestampFutureShift < d.record.timestamp then .error .tooFarInTheFuture
        else .ok ()) : Except (Fault ε) (Except ValidationFailure Unit)) := by
  have hns : (d.signed ns').entry.id.ns = (.ok ns' : Except (Fault ε) NamespaceId) :=
    RecordIdentifier.ns_new
  have hver : (d.signed ns').verify crypto =
      (.ok (d.verified crypto ns') : Except (Fault ε) Bool) := by
    have haut : (d.signed ns').entry.id.author = (.ok d.author : Except (Fault ε) AuthorId) :=
      RecordIdentifier.author_new
    simp only [SignedEntry.verify, hns, haut]
    rfl
  have hstam : (d.signed ns').entry.record.timestamp = d.record.timestamp := rfl
  simp only [validateEntry, hns, hver, hstam]
  by_cases hne : ns' ≠ ns
  · rw [if_pos hne, if_pos hne]
  · rw [if_neg hne, if_neg hne]
    by_cases hloc : origin = .local
    · simp only [hloc, if_true, ne_eq, not_true_eq_false, false_and, if_false]
      split <;> rfl
    · cases hv : d.verified crypto ns' with
      | false => simp only [hloc, if_false, ne_eq, not_false_eq_true, true_and, if_true]
      | true =>
        simp only [hloc, if_false, ne_eq, not_false_eq_true, true_and, Bool.true_eq_false]
        split <;> rfl

lemma validateEntry_ok {ε : Type} {crypto : Crypto} {now : U64} {ns ns' : NamespaceId}
    {d : DocEntry} {origin : InsertOrigin}
    (h : validateEntry crypto now ns (d.signed ns') origin =
      (.ok (.ok ()) : Except (Fault ε) (Except ValidationFailure Unit))) : ns' = ns := by
  rw [validateEntry_signed, Except.ok.injEq] at h
  split at h
  · cases h
  · rename_i hns
    exact not_not.mp hns

/-! ## Replicas -/

/-- What is held in memory about an open replica. -/
structure ReplicaInfo where
  capability : Capability
  contentStatusCb : Option (Hash → ContentStatus)
  closed : Bool

def Fault.store : Fault StoreError → Fault InsertError
  | .error e => .error (.store e)
  | .panic p => .panic p

/-- What is counted during a sync. -/
structure SyncOutcome where
  headsReceived : AuthorHeads
  numRecv : Nat
  numSent : Nat

namespace Replica
variable (crypto : Crypto) (blake3 : Bytes → Bytes32) (info : ReplicaInfo)
variable (s : FsStore)

def insertEntry (entry : SignedEntry) (origin : InsertOrigin) (now : U64) :
    Except (Fault InsertError) (FsStore × Nat) :=
  let ns := info.capability.id crypto
  match validateEntry crypto now ns entry origin with
  | .error f => .error f
  | .ok (.error e) => .error (.error (.validation e))
  | .ok (.ok ()) =>
    match (storeInstance blake3 ns).put s entry with
    | .error f => .error f.store
    | .ok (_, .notInserted) => .error (.error .newerEntryExists)
    | .ok (s, .inserted removed) => .ok (s, removed)

def insert (key : Bytes) (author : Author) (hash : Hash) (len now : U64) :
    Except (Fault InsertError) (FsStore × Nat) :=
  if len = 0 ∨ hash = Hash.empty then .error (.error .entryIsEmpty)
  else if info.closed then .error (.error .closed)
  else
    let id := RecordIdentifier.new (info.capability.id crypto) (crypto.publicKey author) key
    let entry : Entry := ⟨id, ⟨len, hash, now⟩⟩
    match info.capability.secretKey with
    | none => .error (.error .readOnly)
    | some secret => insertEntry crypto blake3 info s (entry.sign crypto secret author) .local now

def deletePrefix (key : Bytes) (author : Author) (now : U64) :
    Except (Fault InsertError) (FsStore × Nat) :=
  if info.closed then .error (.error .closed)
  else
    let id := RecordIdentifier.new (info.capability.id crypto) (crypto.publicKey author) key
    let entry : Entry := ⟨id, ⟨0, Hash.empty, now⟩⟩
    match info.capability.secretKey with
    | none => .error (.error .readOnly)
    | some secret => insertEntry crypto blake3 info s (entry.sign crypto secret author) .local now

def insertRemoteEntry (entry : SignedEntry) (receivedFrom : PeerIdBytes)
    (contentStatus : ContentStatus) (now : U64) : Except (Fault InsertError) (FsStore × Nat) :=
  if info.closed then .error (.error .closed)
  else if entry.entry.validateEmpty then
    insertEntry crypto blake3 info s entry (.sync receivedFrom contentStatus) now
  else .error (.error (.validation .invalidEmptyEntry))

def receiveHeads {ε : Type} (heads : AuthorHeads) :
    List (SignedEntry × ContentStatus) → Except (Fault ε) AuthorHeads
  | [] => .ok heads
  | (entry, _) :: rest =>
    match entry.entry.id.author with
    | .error f => .error f
    | .ok author => receiveHeads (heads.insert author entry.entry.record.timestamp) rest

def validateCb (ns : NamespaceId) (fromPeer : PeerIdBytes) (now : U64) (_ : FsStore)
    (entry : SignedEntry) (status : ContentStatus) : Except (Fault StoreError) Bool :=
  match validateEntry crypto now ns entry (.sync fromPeer status) with
  | .error f => .error f
  | .ok (.ok ()) => .ok true
  | .ok (.error _) => .ok false

def contentStatus (e : SignedEntry) : ContentStatus :=
  match info.contentStatusCb with
  | some cb => cb e.entry.record.hash
  | none => .missing

def syncProcessMessage (message : ProtocolMessage) (fromPeer : PeerIdBytes)
    (now : U64) (state : SyncOutcome) :
    Except (Fault InsertError) (FsStore × SyncOutcome × Option ProtocolMessage) :=
  if info.closed then .error (.error .closed)
  else
    let ns := info.capability.id crypto
    match receiveHeads state.headsReceived message.values with
    | .error f => .error f
    | .ok heads =>
      match (storeInstance blake3 ns).processMessage SyncConfig.default
          (validateCb crypto ns fromPeer now) (contentStatus info) s message with
      | .error f => .error f.store
      | .ok p =>
        let sent := match p.reply with
          | some reply => reply.valueCount
          | none => 0
        .ok (p.store, ⟨heads, state.numRecv + message.valueCount, state.numSent + sent⟩, p.reply)

end Replica
end Krikos.Docs
