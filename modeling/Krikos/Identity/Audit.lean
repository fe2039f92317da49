import Krikos.Identity.AppendOnly
import Krikos.Identity.Operation
import Krikos.Lib.Run

/-!
# Identity.Audit

Auditing the signed heads of one provider log (`audit.rs`, `transparency.rs`, `checkpoint.rs`).

An auditor accepts a head only if it does not go back and if a consistency proof links it to the
latest accepted one. The durable auditor seeds such an auditor with the latest head of a journal,
judges one head, and appends the result if nobody else has appended in between. `AuditSystem` has
any number of these calls at work on one store.
-/

namespace Krikos.Identity

open Lib
open Lib.HashTree

def MAX_PROVIDER_AUDIT_RECORDS : Nat := 65536
def MAX_PROVIDER_PORTABLE_AUDIT_BYTES : Nat := 256 * 1024 * 1024
def MAX_PROVIDER_EXPORT_ITEM_BYTES : Nat := 4 * 1024 * 1024 - 4 * 1024

/-! ## Heads -/

inductive ProviderHeadAuditDisposition where
  | firstObserved
  | treeAdvanced
  | headRefreshed
  | replay
  deriving DecidableEq

inductive ProviderAuditStatus where
  | accepted (disposition : ProviderHeadAuditDisposition)
  | rollback
  | equivocation

structure ProviderAuditRecord where
  sequence : Nat
  head : SignedProviderHead
  consistencyProof : Option MerkleConsistencyProof
  status : ProviderAuditStatus

/-- The identifier of a provider, the bytes that a head signature covers, Ed25519, the hash of the
log, and the encoded size of a record. -/
structure AuditPrimitives where
  providerId : ProviderDescriptor → ProviderId
  headBytes : ProviderHeadBody → Bytes
  verifyEd25519 (publicKey signature message : Bytes) : Bool
  merkleHash : Preimage ProviderLogEntryBody Digest → Digest
  recordBytes : ProviderAuditRecord → Nat

section
variable (c : AuditPrimitives)

namespace SignedProviderHead

/-- `SignedProviderHead::verify`; the first key version is zero. -/
def verify (head : SignedProviderHead) (provider : ProviderDescriptor) :
    Except IdentityError Unit := do
  reject (c.providerId provider ≠ head.body.providerId)
    (.invalidRelationship "provider head configured descriptor")
  reject (head.body.keyVersion ≠ 0) (.invalidRelationship "provider head signing key version")
  reject (head.body.treeSize = 0 ∧ head.body.treeRoot ≠ emptyMerkleRoot c.merkleHash) .invalidProof
  reject (c.verifyEd25519 provider.signingKey.asBytes.val head.signature
    (c.headBytes head.body) = false) .invalidSignature

end SignedProviderHead

/-- Two heads of one log and size with different roots. -/
structure ProviderEquivocationEvidence where
  first : SignedProviderHead
  second : SignedProviderHead
  deriving DecidableEq

namespace ProviderEquivocationEvidence

def fromHeads (first second : SignedProviderHead) :
    Except IdentityError ProviderEquivocationEvidence := do
  reject (first.body.providerId ≠ second.body.providerId ∨ first.body.logId ≠ second.body.logId ∨
      first.body.treeSize ≠ second.body.treeSize ∨ first.body.treeRoot = second.body.treeRoot)
    (.invalidRelationship "provider equivocation head pair")
  return ⟨first, second⟩

def new (provider : ProviderDescriptor) (first second : SignedProviderHead) :
    Except IdentityError ProviderEquivocationEvidence := do
  first.verify c provider
  second.verify c provider
  fromHeads first second

def verify (evidence : ProviderEquivocationEvidence) (provider : ProviderDescriptor) :
    Except IdentityError Unit := do
  evidence.first.verify c provider
  evidence.second.verify c provider
  let _ ← fromHeads evidence.first evidence.second

end ProviderEquivocationEvidence

def verifyProviderHeadProgression (provider : ProviderDescriptor) (older newer : SignedProviderHead)
    (consistencyProof : MerkleConsistencyProof) : Except IdentityError Unit := do
  older.verify c provider
  newer.verify c provider
  reject (older.body.providerId ≠ newer.body.providerId ∨ older.body.logId ≠ newer.body.logId)
    (.invalidRelationship "provider head progression log")
  reject (newer.body.treeSize < older.body.treeSize ∨
    newer.body.observedAt < older.body.observedAt) .providerRollback
  reject (newer.body.treeSize = older.body.treeSize ∧ newer.body.treeRoot ≠ older.body.treeRoot)
    .providerEquivocation
  reject (consistencyProof.oldSize ≠ older.body.treeSize ∨
    consistencyProof.newSize ≠ newer.body.treeSize) .invalidProof
  consistencyProof.verify c.merkleHash older.body.treeRoot newer.body.treeRoot

/-! ## The auditor -/

@[ext]
structure ProviderHeadAuditor where
  provider : ProviderDescriptor
  logId : ProviderLogId
  latest : Option SignedProviderHead
  equivocation : Option ProviderEquivocationEvidence

namespace ProviderHeadAuditor

def new (provider : ProviderDescriptor) (logId : ProviderLogId) : ProviderHeadAuditor :=
  ⟨provider, logId, none, none⟩

variable (a : ProviderHeadAuditor)

def progress (previous head : SignedProviderHead)
    (consistencyProof : Option MerkleConsistencyProof) :
    Except IdentityError ProviderHeadAuditDisposition :=
  if head.body.treeSize = previous.body.treeSize then
    match consistencyProof with
    | some proof => do
      verifyProviderHeadProgression c a.provider previous head proof
      return .headRefreshed
    | none => .ok .headRefreshed
  else do
    let proof ← okOr consistencyProof .invalidProof
    verifyProviderHeadProgression c a.provider previous head proof
    return .treeAdvanced

/-- The part of `observe` after the head was verified. -/
def judge (head : SignedProviderHead) (consistencyProof : Option MerkleConsistencyProof) :
    ProviderHeadAuditor × Except IdentityError ProviderHeadAuditDisposition :=
  match a.latest with
  | none => ({ a with latest := some head }, .ok .firstObserved)
  | some previous =>
    if head = previous then (a, .ok .replay)
    else if head.body.treeSize = previous.body.treeSize ∧
        head.body.treeRoot ≠ previous.body.treeRoot then
      match ProviderEquivocationEvidence.new c a.provider previous head with
      | .error e => (a, .error e)
      | .ok evidence => ({ a with equivocation := some evidence }, .error .providerEquivocation)
    else if head.body.treeSize < previous.body.treeSize ∨
        head.body.observedAt < previous.body.observedAt then (a, .error .providerRollback)
    else match a.progress c previous head consistencyProof with
      | .error e => (a, .error e)
      | .ok disposition => ({ a with latest := some head }, .ok disposition)

def observe (head : SignedProviderHead) (consistencyProof : Option MerkleConsistencyProof) :
    ProviderHeadAuditor × Except IdentityError ProviderHeadAuditDisposition :=
  if a.equivocation.isSome then (a, .error .providerEquivocation)
  else match head.verify c a.provider with
    | .error e => (a, .error e)
    | .ok () =>
      if head.body.logId ≠ a.logId then
        (a, .error (.invalidRelationship "provider auditor log generation"))
      else a.judge c head consistencyProof

end ProviderHeadAuditor

def ProviderAuditStatus.matchesOutcome :
    ProviderAuditStatus → Except IdentityError ProviderHeadAuditDisposition → Bool
  | .accepted expected, .ok actual => decide (expected = actual)
  | .rollback, .error .providerRollback => true
  | .equivocation, .error .providerEquivocation => true
  | _, _ => false

/-! ## The journal -/

structure ProviderAuditSnapshot where
  revision : Nat
  provider : ProviderDescriptor
  logId : ProviderLogId
  latestHead : Option SignedProviderHead
  equivocation : Option ProviderEquivocationEvidence
  records : List ProviderAuditRecord

structure PortableAccounting where
  records : Nat
  totalBytes : Nat

namespace PortableAccounting

def empty : PortableAccounting := ⟨0, 0⟩

def withAppendedRecord (a : PortableAccounting) (record : ProviderAuditRecord) :
    Except IdentityError PortableAccounting := do
  let nextRecords ← checkedAdd a.records 1 "portable provider audit records"
  reject (nextRecords > MAX_PROVIDER_AUDIT_RECORDS)
    (.limitExceeded "portable provider audit records" nextRecords MAX_PROVIDER_AUDIT_RECORDS)
  let recordBytes := c.recordBytes record
  reject (recordBytes > MAX_PROVIDER_EXPORT_ITEM_BYTES)
    (.limitExceeded "provider export single canonical item bytes" recordBytes
      MAX_PROVIDER_EXPORT_ITEM_BYTES)
  let totalBytes ← checkedAdd a.totalBytes recordBytes "portable provider audit bytes"
  reject (totalBytes > MAX_PROVIDER_PORTABLE_AUDIT_BYTES)
    (.limitExceeded "portable provider audit bytes" totalBytes MAX_PROVIDER_PORTABLE_AUDIT_BYTES)
  return ⟨nextRecords, totalBytes⟩

/-- `from_snapshot`, over the records -/
def ofRecords (records : List ProviderAuditRecord) : Except IdentityError PortableAccounting :=
  records.foldlM (withAppendedRecord c) empty

end PortableAccounting

/-- The loop of `validate_inner`: the records in order, through one auditor. -/
def replayRecords : ProviderHeadAuditor → Nat → List ProviderAuditRecord →
    Except IdentityError ProviderHeadAuditor
  | auditor, _, [] => .ok auditor
  | auditor, index, record :: rest => do
    reject (record.sequence ≠ index + 1 ∨ record.head.body.logId ≠ auditor.logId) .storageCorruption
    let (auditor, actual) := auditor.observe c record.head record.consistencyProof
    reject (record.status.matchesOutcome actual = false) .storageCorruption
    replayRecords auditor (index + 1) rest

namespace ProviderAuditSnapshot
variable (s : ProviderAuditSnapshot)

def acceptedHeads : List SignedProviderHead :=
  s.records.filterMap fun record =>
    match record.status with
    | .accepted _ => some record.head
    | _ => none

/-- The checks of `validate_inner` on the latest head and the evidence. -/
def validateTip (auditor : ProviderHeadAuditor) : Except IdentityError Unit := do
  match s.latestHead with
  | some head =>
    reject ((head.verify c s.provider).isOk = false) .storageCorruption
    reject (head.body.logId ≠ s.logId) .storageCorruption
  | none => .ok ()
  match s.equivocation with
  | some evidence => reject ((evidence.verify c s.provider).isOk = false) .storageCorruption
  | none => .ok ()
  reject (auditor.latest ≠ s.latestHead ∨ auditor.equivocation ≠ s.equivocation) .storageCorruption

def validate : Except IdentityError Unit := do
  reject (s.records.length > MAX_PROVIDER_AUDIT_RECORDS ∨ s.revision ≠ s.records.length)
    .storageCorruption
  let auditor ← replayRecords c (.new s.provider s.logId) 0 s.records
  s.validateTip c auditor
  let _ ← PortableAccounting.ofRecords c s.records

end ProviderAuditSnapshot

structure ProviderAuditAppend where
  record : ProviderAuditRecord
  latestHead : Option SignedProviderHead
  equivocation : Option ProviderEquivocationEvidence

def seededAuditor (provider : ProviderDescriptor) (logId : ProviderLogId)
    (latestHead : Option SignedProviderHead) : Except IdentityError ProviderHeadAuditor :=
  match latestHead with
  | none => .ok (.new provider logId)
  | some latest =>
    match (ProviderHeadAuditor.new provider logId).observe c latest none with
    | (_, .error e) => .error e
    | (auditor, .ok disposition) => do
      reject (disposition ≠ .firstObserved) .storageCorruption
      return auditor

def validateAuditSuccessor (retained : ProviderAuditSnapshot) (append : ProviderAuditAppend) :
    Except IdentityError Unit := do
  reject (retained.equivocation.isSome = true) .providerEquivocation
  let expectedSequence ← checkedAdd retained.revision 1 "provider audit successor sequence"
  reject (append.record.sequence ≠ expectedSequence ∨
    append.record.head.body.logId ≠ retained.logId) .storageCorruption
  let auditor ← seededAuditor c retained.provider retained.logId retained.latestHead
  let (auditor, actual) := auditor.observe c append.record.head append.record.consistencyProof
  reject (append.record.status.matchesOutcome actual = false ∨
    auditor.latest ≠ append.latestHead ∨ auditor.equivocation ≠ append.equivocation)
    .storageCorruption

def applyAuditAppend (s : ProviderAuditSnapshot) (append : ProviderAuditAppend) :
    ProviderAuditSnapshot :=
  { s with
    revision := append.record.sequence
    records := s.records ++ [append.record]
    latestHead := append.latestHead
    equivocation := append.equivocation }

/-- `MemoryProviderAuditState` -/
structure AuditStore where
  snapshot : ProviderAuditSnapshot
  portableAccounting : PortableAccounting

namespace AuditStore

def new (provider : ProviderDescriptor) (logId : ProviderLogId) : AuditStore :=
  ⟨⟨0, provider, logId, none, none, []⟩, .empty⟩

def compareAndAppend (s : AuditStore) (expectedRevision : Nat) (append : ProviderAuditAppend) :
    Except IdentityError AuditStore := do
  reject (s.snapshot.revision ≠ expectedRevision) .staleRevision
  validateAuditSuccessor c s.snapshot append
  let nextAccounting ← s.portableAccounting.withAppendedRecord c append.record
  return ⟨applyAuditAppend s.snapshot append, nextAccounting⟩

end AuditStore

/-! ## The durable auditor -/

structure ProviderAuditCursor where
  revision : Nat
  provider : ProviderDescriptor
  logId : ProviderLogId
  latestHead : Option SignedProviderHead
  equivocation : Option ProviderEquivocationEvidence

def AuditStore.loadCursor (s : AuditStore) : ProviderAuditCursor :=
  ⟨s.snapshot.revision, s.snapshot.provider, s.snapshot.logId, s.snapshot.latestHead,
    s.snapshot.equivocation⟩

/-- The status to record; other errors are returned at once. -/
def statusOf : Except IdentityError ProviderHeadAuditDisposition →
    Except IdentityError ProviderAuditStatus
  | .ok disposition => .ok (.accepted disposition)
  | .error .providerRollback => .ok .rollback
  | .error .providerEquivocation => .ok .equivocation
  | .error e => .error e

/-- `DurableProviderAuditor::observe` between its load and its append: the record to append, and
what the call returns if the append succeeds. -/
def judgeCursor (cursor : ProviderAuditCursor) (head : SignedProviderHead)
    (consistencyProof : Option MerkleConsistencyProof) : Except IdentityError
      (ProviderAuditAppend × Except IdentityError ProviderHeadAuditDisposition) := do
  reject (cursor.equivocation.isSome = true) .providerEquivocation
  let auditor ← seededAuditor c cursor.provider cursor.logId cursor.latestHead
  let (auditor, result) := auditor.observe c head consistencyProof
  let status ← statusOf result
  reject (cursor.revision ≥ MAX_PROVIDER_AUDIT_RECORDS)
    (.limitExceeded "provider audit records" (cursor.revision + 1) MAX_PROVIDER_AUDIT_RECORDS)
  let nextRevision ← checkedAdd cursor.revision 1 "provider audit revision"
  return (⟨⟨nextRevision, head, consistencyProof, status⟩, auditor.latest, auditor.equivocation⟩,
    result)

end

/-! ## Concurrent calls -/

/-- Where a call of `observe` is: before a load, with the rounds that are left, before an append,
or returned. -/
inductive AuditPhase where
  | loading (rounds : Nat)
  | appending (rounds expectedRevision : Nat) (append : ProviderAuditAppend)
      (result : Except IdentityError ProviderHeadAuditDisposition)
  | returned (result : Except IdentityError ProviderHeadAuditDisposition)

structure AuditCall where
  head : SignedProviderHead
  consistencyProof : Option MerkleConsistencyProof
  phase : AuditPhase

structure AuditSystem where
  store : AuditStore
  calls : List AuditCall

inductive AuditEvent where
  | observe (head : SignedProviderHead) (consistencyProof : Option MerkleConsistencyProof)
  | load (i : Nat)
  | append (i : Nat)

namespace AuditSystem
variable (c : AuditPrimitives)

def new (provider : ProviderDescriptor) (logId : ProviderLogId) : AuditSystem :=
  ⟨.new provider logId, []⟩

variable (sys : AuditSystem)

def setPhase (i : Nat) (phase : AuditPhase) : AuditSystem :=
  { sys with calls := sys.calls.modify i fun call => { call with phase := phase } }

/-- A load with its judgement; without a round left the call gives up. -/
def load (i : Nat) : AuditSystem :=
  match sys.calls[i]? with
  | some ⟨_, _, .loading 0⟩ => sys.setPhase i (.returned (.error .resourceBusy))
  | some ⟨head, consistencyProof, .loading (rounds + 1)⟩ =>
    match judgeCursor c sys.store.loadCursor head consistencyProof with
    | .error e => sys.setPhase i (.returned (.error e))
    | .ok (append, result) =>
      sys.setPhase i (.appending rounds sys.store.loadCursor.revision append result)
  | _ => sys

def append (i : Nat) : AuditSystem :=
  match sys.calls[i]? with
  | some ⟨_, _, .appending rounds expectedRevision append result⟩ =>
    match sys.store.compareAndAppend c expectedRevision append with
    | .ok store => { sys with store := store }.setPhase i (.returned result)
    | .error .staleRevision => sys.setPhase i (.loading rounds)
    | .error e => sys.setPhase i (.returned (.error e))
  | _ => sys

def step : AuditEvent → AuditSystem
  | .observe head consistencyProof =>
    { sys with calls := sys.calls ++ [⟨head, consistencyProof, .loading (MAX_RETRIES + 1)⟩] }
  | .load i => sys.load c i
  | .append i => sys.append c i

end AuditSystem
end Krikos.Identity
