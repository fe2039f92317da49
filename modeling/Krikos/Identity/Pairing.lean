import Krikos.Identity.Types
import Krikos.Lib.Table

/-!
# Identity.Pairing

The pairing ceremony of a new device (`pairing.rs`, `pairing/nonce_store.rs`, `proposal.rs`).

A ticket is accepted, bound to an authenticated transport, proven by the keys of the proposed
device, confirmed on both sides and consumed. Each transition takes the ceremony of one state and
gives the ceremony of the next one. The store of nonces keeps a tombstone for every ticket that was
consumed; `PairingNonceStore` is its contract, with the memory and the database store as instances.
-/

namespace Krikos.Identity

open Lib

def MAX_PAIRING_TICKET_BYTES : Nat := 16 * 1024
def MAX_PAIRING_NONCE_TOMBSTONES : Nat := 65536
def MAX_PAIRING_LIFETIME : DurationMillis := 10 * 60 * 1000
def MAX_FUTURE_CLOCK_SKEW : DurationMillis := 2 * 60 * 1000
def MAX_PAIRING_ENDPOINT_HINT_BYTES : Nat := 1024

/-! ## Tickets -/

structure PairingTicketId where
  asDigest : Digest

structure PairingTranscriptId where
  asDigest : Digest
  deriving DecidableEq

structure PairingProofId where
  asDigest : Digest

/-- `PairingNonce`, `PairingSessionId` and `PairingChallenge` -/
abbrev NonzeroBytes := {bytes : FixedBytes 32 // bytes ≠ FixedBytes.zero 32}

abbrev PairingNonce := NonzeroBytes
abbrev PairingSessionId := NonzeroBytes
abbrev PairingChallenge := NonzeroBytes

def validateTicketTimes (issuedAt expiresAt : Timestamp) : Except IdentityError Unit := do
  reject (expiresAt < issuedAt) (.invalidRelationship "pairing ticket validity interval")
  reject (expiresAt - issuedAt = 0) (.zeroValue "pairing ticket lifetime")
  reject (expiresAt - issuedAt > MAX_PAIRING_LIFETIME)
    (.limitExceeded "pairing ticket lifetime milliseconds" (expiresAt - issuedAt)
      MAX_PAIRING_LIFETIME)

/-- `Extensions::validate_critical` without known codes -/
def Extensions.validateCritical : Extensions → Except IdentityError Unit
  | [] => .ok ()
  | extension :: rest => do
    reject (extension.critical = true) (.unknownCriticalExtension extension.code)
    validateCritical rest

structure PairingTicketBody where
  accountId : AccountId
  proposedDevice : DeviceDescriptor
  proposedDeviceId : DeviceId
  ephemeralPublicKey : AgreementPublicKey
  proposedEndpoint : EndpointPublicKey
  endpointHint : Bytes
  randomSecretCommitment : Digest
  issuedAt : Timestamp
  expiresAt : Timestamp
  nonce : PairingNonce
  extensions : Extensions

/-! ## Transcripts, proofs and confirmations -/

/-- The facts that a transport adapter attests; the two endpoints are different. -/
structure AuthenticatedTransportBinding where
  sessionId : PairingSessionId
  controllerEndpoint : EndpointPublicKey
  proposedEndpoint : EndpointPublicKey
  exporterBinding : Digest
  separate : controllerEndpoint ≠ proposedEndpoint

structure PairingTranscript where
  ticketId : PairingTicketId
  randomSecretCommitment : Digest
  accountId : AccountId
  proposedDevice : DeviceDescriptor
  proposedDeviceId : DeviceId
  controllerDevice : DeviceDescriptor
  controllerDeviceId : DeviceId
  proposedEndpoint : EndpointPublicKey
  controllerEndpoint : EndpointPublicKey
  verifierChallenge : PairingChallenge
  sessionId : PairingSessionId
  transportExporterBinding : Digest
  pairingEphemeralPublicKey : AgreementPublicKey
  connectionEphemeralPublicKey : AgreementPublicKey

structure PairingPossessionProof where
  transcriptId : PairingTranscriptId
  randomSecret : FixedBytes 32
  applicationSignature : Bytes
  endpointSignature : Bytes
  agreementMac : FixedBytes 32
  pairingEphemeralMac : FixedBytes 32

/-- Six ASCII digits. -/
structure ShortAuthString where
  digits : Bytes
  length_digits : digits.length = 6
  ascii : ∀ digit ∈ digits, 48 ≤ digit.val ∧ digit.val ≤ 57
  deriving DecidableEq

inductive ConfirmationParticipant where
  | controller
  | proposedDevice
  deriving DecidableEq

structure PairingConfirmation where
  participant : ConfirmationParticipant
  transcriptId : PairingTranscriptId
  observedShortAuth : ShortAuthString
  confirmedAt : Timestamp
  endpointSignature : Bytes

structure PairingConfirmationContext where
  transcriptId : PairingTranscriptId
  shortAuth : ShortAuthString
  controllerConfirmedAt : Timestamp
  proposedDeviceConfirmedAt : Timestamp

structure DeviceAuthorizationProposal where
  accountId : AccountId
  proposedDevice : DeviceDescriptor
  proposedDeviceId : DeviceId
  ticketId : PairingTicketId
  transcriptId : PairingTranscriptId
  proofId : PairingProofId
  confirmation : PairingConfirmationContext

/-- Canonical encodings, BLAKE3, Ed25519 and the Montgomery curve. -/
structure PairingPrimitives where
  deviceId : DeviceDescriptor → DeviceId
  ticketBytes : PairingTicketBody → Bytes
  transcriptBytes : PairingTranscript → Bytes
  proofBytes : PairingPossessionProof → Bytes
  confirmationBytes :
    ConfirmationParticipant → PairingTranscriptId → ShortAuthString → Timestamp → Bytes
  proposalBytes : DeviceAuthorizationProposal → Bytes
  deriveKey (context : String) (material : Bytes) : FixedBytes 32
  keyedHash (key : FixedBytes 32) (message : Bytes) : FixedBytes 32
  verifyEd25519 (publicKey signature message : Bytes) : Bool
  mulClamped (point scalar : FixedBytes 32) : FixedBytes 32
  mulBaseClamped (scalar : FixedBytes 32) : FixedBytes 32
  isIdentity (point : FixedBytes 32) : Bool

/-- A ticket that passed `PairingTicket::new`. -/
structure PairingTicket (c : PairingPrimitives) extends PairingTicketBody where
  times : validateTicketTimes issuedAt expiresAt = .ok ()
  device : proposedDeviceId = c.deviceId proposedDevice
  endpoint : proposedEndpoint = proposedDevice.endpointKey
  critical : extensions.validateCritical = .ok ()
  hint : endpointHint.length ≤ MAX_PAIRING_ENDPOINT_HINT_BYTES
  size : (c.ticketBytes toPairingTicketBody).length ≤ MAX_PAIRING_TICKET_BYTES

/-- `CanonicalWire::to_canonical_bytes`, for an encoding -/
def canonicalBytes (resource : String) (maximum : Nat) (encoded : Bytes) :
    Except IdentityError Bytes := do
  reject (encoded.length > maximum) (.limitExceeded resource encoded.length maximum)
  return encoded

def domainBytes (domain : String) : Bytes := domain.toList.map fun c => Fin.ofNat 256 c.toNat

def domainMessage (domain : String) (body : Bytes) : Bytes := domainBytes domain ++ 0 :: body

section
variable (c : PairingPrimitives)

def PairingTicket.ticketId {c : PairingPrimitives} (ticket : PairingTicket c) :
    Except IdentityError PairingTicketId := do
  let bytes ← canonicalBytes "pairing ticket bytes" MAX_PAIRING_TICKET_BYTES
    (c.ticketBytes ticket.toPairingTicketBody)
  return ⟨c.deriveKey "KRIKOS-ID/pairing-ticket-id/v1" bytes⟩

/-- The loop of `validate_pairing_public_key_separation` -/
def separateKeys : List (FixedBytes 32) → Except IdentityError Unit
  | [] => .ok ()
  | publicKey :: tail => do
    reject (tail.contains publicKey = true)
      (.invalidRelationship "pairing transcript public-key separation")
    separateKeys tail

def validatePairingPublicKeySeparation (proposedDevice controllerDevice : DeviceDescriptor)
    (pairingEphemeral connectionEphemeral : AgreementPublicKey) : Except IdentityError Unit :=
  separateKeys [proposedDevice.applicationSigningKey.asBytes, proposedDevice.agreementKey.asBytes,
    proposedDevice.endpointKey.asSigningKey.asBytes,
    controllerDevice.applicationSigningKey.asBytes, controllerDevice.agreementKey.asBytes,
    controllerDevice.endpointKey.asSigningKey.asBytes,
    pairingEphemeral.asBytes, connectionEphemeral.asBytes]

namespace PairingTranscript

def new (ticket : PairingTicket c) (controllerDevice : DeviceDescriptor)
    (transport : AuthenticatedTransportBinding) (verifierChallenge : PairingChallenge)
    (connectionEphemeral : AgreementPublicKey) : Except IdentityError PairingTranscript := do
  validatePairingPublicKeySeparation ticket.proposedDevice controllerDevice
    ticket.ephemeralPublicKey connectionEphemeral
  let controllerDeviceId := c.deviceId controllerDevice
  reject (controllerDeviceId = ticket.proposedDeviceId)
    (.invalidRelationship "pairing controller and proposed device separation")
  reject (transport.controllerEndpoint ≠ controllerDevice.endpointKey ∨
      transport.proposedEndpoint ≠ ticket.proposedEndpoint)
    (.invalidRelationship "pairing authenticated transport endpoints")
  let ticketId ← ticket.ticketId
  let transcript : PairingTranscript :=
    { ticketId := ticketId
      randomSecretCommitment := ticket.randomSecretCommitment
      accountId := ticket.accountId
      proposedDevice := ticket.proposedDevice
      proposedDeviceId := ticket.proposedDeviceId
      controllerDevice := controllerDevice
      controllerDeviceId := controllerDeviceId
      proposedEndpoint := transport.proposedEndpoint
      controllerEndpoint := transport.controllerEndpoint
      verifierChallenge := verifierChallenge
      sessionId := transport.sessionId
      transportExporterBinding := transport.exporterBinding
      pairingEphemeralPublicKey := ticket.ephemeralPublicKey
      connectionEphemeralPublicKey := connectionEphemeral }
  reject ((c.transcriptBytes transcript).length > MAX_ACCOUNT_EVENT_BYTES)
    (.limitExceeded "pairing transcript bytes" (c.transcriptBytes transcript).length
      MAX_ACCOUNT_EVENT_BYTES)
  return transcript

variable (t : PairingTranscript)

def canonical : Except IdentityError Bytes :=
  canonicalBytes "pairing transcript bytes" MAX_ACCOUNT_EVENT_BYTES (c.transcriptBytes t)

def transcriptId : Except IdentityError PairingTranscriptId := do
  let bytes ← t.canonical c
  return ⟨c.deriveKey "KRIKOS-ID/pairing-transcript-id/v1" bytes⟩

def applicationPossessionSigningBytes : Except IdentityError Bytes := do
  let bytes ← t.canonical c
  return domainMessage "KRIKOS-ID/pairing-application-possession/v1" bytes

def endpointPossessionSigningBytes : Except IdentityError Bytes := do
  let bytes ← t.canonical c
  return domainMessage "KRIKOS-ID/pairing-endpoint-possession/v1" bytes

end PairingTranscript

def PairingPossessionProof.proofId (proof : PairingPossessionProof) :
    Except IdentityError PairingProofId := do
  let bytes ← canonicalBytes "pairing possession proof bytes" MAX_PAIRING_TICKET_BYTES
    (c.proofBytes proof)
  return ⟨c.deriveKey "KRIKOS-ID/pairing-possession-proof-id/v1" bytes⟩

variable (secret : FixedBytes 32)

def secretCommitment : Digest :=
  c.deriveKey "KRIKOS-ID/pairing-secret-commitment/v1" secret.val

/-! ## Checks of keys -/

def verifySignature (publicKey : SigningPublicKey) (message signature : Bytes) :
    Except IdentityError Unit :=
  reject (c.verifyEd25519 publicKey.asBytes.val signature message = false) .invalidSignature

def verifyMac (actual expected : FixedBytes 32) : Except IdentityError Unit :=
  reject (actual ≠ expected) .invalidProof

def validateContributory (shared : FixedBytes 32) : Except IdentityError Unit :=
  reject (c.isIdentity shared = true) (.invalidPublicKey .agreement)

def diffieHellman (publicKey : AgreementPublicKey) : Except IdentityError (FixedBytes 32) := do
  let shared := c.mulClamped publicKey.asBytes secret
  validateContributory c shared
  return shared

def derivePossessionMac (shared : FixedBytes 32) (keyContext messageDomain : String)
    (subject connection : AgreementPublicKey) (transcriptBytes : Bytes) :
    Except IdentityError (FixedBytes 32) := do
  validateContributory c shared
  let key := c.deriveKey keyContext (shared.val ++ subject.asBytes.val ++ connection.asBytes.val)
  return c.keyedHash key (domainMessage messageDomain transcriptBytes)

/-- `FIELD_MODULUS`, lowest byte first -/
def fieldModulus : Bytes := 237 :: List.replicate 30 255 ++ [127]

/-- `little_endian_less_than`: the highest byte that differs decides. -/
def littleEndianLessThan (left right : Bytes) : Bool := decide (left.reverse < right.reverse)

def x25519PublicKeyIsValid (bytes : FixedBytes 32) : Bool :=
  littleEndianLessThan bytes.val fieldModulus &&
    decide (c.mulClamped bytes ⟨List.replicate 32 66, List.length_replicate⟩ ≠ FixedBytes.zero 32)

def connectionPublicKey : Except IdentityError AgreementPublicKey := do
  reject (x25519PublicKeyIsValid c (c.mulBaseClamped secret) = false) (.invalidPublicKey .agreement)
  return ⟨c.mulBaseClamped secret⟩

/-! ## The short authentication string -/

/-- The loop that writes the lowest digit first. -/
def shortAuthDigits : Nat → Nat → Bytes → Bytes
  | 0, _, digits => digits
  | count + 1, remainder, digits =>
    shortAuthDigits count (remainder / 10) (Fin.ofNat 256 (48 + remainder % 10) :: digits)

lemma length_shortAuthDigits (count remainder : Nat) (digits : Bytes) :
    (shortAuthDigits count remainder digits).length = count + digits.length := by
  induction count generalizing remainder digits with
  | zero => simp [shortAuthDigits]
  | succ count ih =>
    rw [shortAuthDigits, ih, List.length_cons]
    omega

lemma ascii_shortAuthDigits (count remainder : Nat) {digits : Bytes}
    (h : ∀ digit ∈ digits, 48 ≤ digit.val ∧ digit.val ≤ 57) :
    ∀ digit ∈ shortAuthDigits count remainder digits, 48 ≤ digit.val ∧ digit.val ≤ 57 := by
  induction count generalizing remainder digits with
  | zero => exact h
  | succ count ih =>
    refine ih (remainder / 10) fun digit hdig => ?_
    rcases List.mem_cons.mp hdig with rfl | hdig
    · simp only [Fin.val_ofNat]
      omega
    · exact h digit hdig

lemma length_sixDigits (value : Nat) : (shortAuthDigits 6 value []).length = 6 :=
  length_shortAuthDigits 6 value []

lemma ascii_sixDigits (value : Nat) :
    ∀ digit ∈ shortAuthDigits 6 value [], 48 ≤ digit.val ∧ digit.val ≤ 57 :=
  ascii_shortAuthDigits 6 value fun _ h => absurd h List.not_mem_nil

/-- `ShortAuthString::derive`, from the first four bytes of the transcript identifier -/
def ShortAuthString.derive (id : PairingTranscriptId) : ShortAuthString :=
  let value := ofBeBytes (id.asDigest.val.take 4).reverse % 1000000
  ⟨shortAuthDigits 6 value [], length_sixDigits value, ascii_sixDigits value⟩

/-! ## The states of a ceremony -/

structure Connected where
  transcript : PairingTranscript
  connectionSecret : FixedBytes 32

structure Proven where
  transcript : PairingTranscript
  transcriptId : PairingTranscriptId
  proofId : PairingProofId
  shortAuth : ShortAuthString

structure Confirmed where
  transcript : PairingTranscript
  proofId : PairingProofId
  confirmation : PairingConfirmationContext

variable {c}
variable (ticket : PairingTicket c)

def connect (controllerDevice : DeviceDescriptor)
    (transport : AuthenticatedTransportBinding) (verifierChallenge : PairingChallenge)
    (connectionSecret : FixedBytes 32) : Except IdentityError Connected := do
  let connectionPublic ← connectionPublicKey c connectionSecret
  let transcript ← PairingTranscript.new c ticket controllerDevice transport verifierChallenge
    connectionPublic
  return ⟨transcript, connectionSecret⟩

variable (c)

def verifyPossession (state : Connected) (proof : PairingPossessionProof) :
    Except IdentityError Proven := do
  let transcript := state.transcript
  let expectedTranscriptId ← transcript.transcriptId c
  reject (proof.transcriptId ≠ expectedTranscriptId)
    (.invalidRelationship "pairing possession transcript")
  reject (secretCommitment c proof.randomSecret ≠ transcript.randomSecretCommitment) .invalidProof
  let applicationMessage ← transcript.applicationPossessionSigningBytes c
  verifySignature c transcript.proposedDevice.applicationSigningKey applicationMessage
    proof.applicationSignature
  let endpointMessage ← transcript.endpointPossessionSigningBytes c
  verifySignature c transcript.proposedDevice.endpointKey.asSigningKey endpointMessage
    proof.endpointSignature
  let transcriptBytes ← transcript.canonical c
  let agreementShared ← diffieHellman c state.connectionSecret
    transcript.proposedDevice.agreementKey
  let expectedAgreementMac ← derivePossessionMac c agreementShared
    "KRIKOS-ID/pairing-agreement-proof-key/v1" "KRIKOS-ID/pairing-agreement-possession/v1"
    transcript.proposedDevice.agreementKey transcript.connectionEphemeralPublicKey transcriptBytes
  verifyMac proof.agreementMac expectedAgreementMac
  let ephemeralShared ← diffieHellman c state.connectionSecret
    transcript.pairingEphemeralPublicKey
  let expectedEphemeralMac ← derivePossessionMac c ephemeralShared
    "KRIKOS-ID/pairing-ephemeral-proof-key/v1" "KRIKOS-ID/pairing-ephemeral-possession/v1"
    transcript.pairingEphemeralPublicKey transcript.connectionEphemeralPublicKey transcriptBytes
  verifyMac proof.pairingEphemeralMac expectedEphemeralMac
  let proofId ← proof.proofId c
  return ⟨transcript, expectedTranscriptId, proofId, ShortAuthString.derive expectedTranscriptId⟩

def pairingConfirmationSigningBytes (confirmation : PairingConfirmation) : Bytes :=
  domainMessage "KRIKOS-ID/pairing-confirmation/v1"
    (c.confirmationBytes confirmation.participant confirmation.transcriptId
      confirmation.observedShortAuth confirmation.confirmedAt)

def confirmationSignatureIsValid (confirmation : PairingConfirmation)
    (publicKey : SigningPublicKey) : Bool :=
  (verifySignature c publicKey (pairingConfirmationSigningBytes c confirmation)
    confirmation.endpointSignature).isOk

variable {c}

def contextValid (state : Proven) (controller proposedDevice : PairingConfirmation) : Bool :=
  decide (controller.participant = .controller) &&
    decide (proposedDevice.participant = .proposedDevice) &&
    decide (controller.transcriptId = state.transcriptId) &&
    decide (proposedDevice.transcriptId = state.transcriptId) &&
    decide (controller.observedShortAuth = state.shortAuth) &&
    decide (proposedDevice.observedShortAuth = state.shortAuth) &&
    decide (controller.confirmedAt ≥ ticket.issuedAt) &&
    decide (proposedDevice.confirmedAt ≥ ticket.issuedAt) &&
    decide (controller.confirmedAt ≤ ticket.expiresAt) &&
    decide (proposedDevice.confirmedAt ≤ ticket.expiresAt)

/-- `PairingCeremony<Proven>::confirm`; `none` is the cancelled ceremony. -/
def confirm (state : Proven) (controller proposedDevice : PairingConfirmation) : Option Confirmed :=
  if !contextValid ticket state controller proposedDevice ||
      !confirmationSignatureIsValid c controller
        state.transcript.controllerDevice.endpointKey.asSigningKey ||
      !confirmationSignatureIsValid c proposedDevice
        state.transcript.proposedDevice.endpointKey.asSigningKey then none
  else some
    { transcript := state.transcript
      proofId := state.proofId
      confirmation :=
        { transcriptId := state.transcriptId
          shortAuth := state.shortAuth
          controllerConfirmedAt := controller.confirmedAt
          proposedDeviceConfirmedAt := proposedDevice.confirmedAt } }

variable (c)

def fromConfirmedPairing (accountId : AccountId) (proposedDevice : DeviceDescriptor)
    (proposedDeviceId : DeviceId) (ticketId : PairingTicketId) (transcriptId : PairingTranscriptId)
    (proofId : PairingProofId) (confirmation : PairingConfirmationContext) :
    Except IdentityError DeviceAuthorizationProposal := do
  reject (c.deviceId proposedDevice ≠ proposedDeviceId)
    (.invalidIdentifier "paired authorization proposal device")
  reject (confirmation.transcriptId ≠ transcriptId)
    (.invalidRelationship "paired authorization proposal confirmation")
  let proposal : DeviceAuthorizationProposal :=
    ⟨accountId, proposedDevice, proposedDeviceId, ticketId, transcriptId, proofId, confirmation⟩
  reject ((c.proposalBytes proposal).length > MAX_ACCOUNT_EVENT_BYTES)
    (.limitExceeded "device authorization proposal bytes" (c.proposalBytes proposal).length
      MAX_ACCOUNT_EVENT_BYTES)
  return proposal

/-! ## The nonce store -/

structure PairingNonceKey where
  accountId : AccountId
  ticketId : PairingTicketId
  nonce : PairingNonce

namespace PairingNonceKey

def toTuple (key : PairingNonceKey) : Digest ×ₗ (Digest ×ₗ FixedBytes 32) :=
  toLex (key.accountId.digest, toLex (key.ticketId.asDigest, key.nonce.val))

lemma toTuple_injective : Function.Injective toTuple := by
  rintro ⟨⟨a⟩, ⟨t⟩, ⟨n, hn⟩⟩ ⟨⟨a'⟩, ⟨t'⟩, ⟨n', hn'⟩⟩ h
  have h' : (a, (t, n)) = (a', (t', n')) := h
  cases h'
  rfl

instance : LinearOrder PairingNonceKey := LinearOrder.lift' toTuple toTuple_injective

def forTicket {c : PairingPrimitives} (ticket : PairingTicket c) :
    Except IdentityError PairingNonceKey := do
  let ticketId ← ticket.ticketId
  return ⟨ticket.accountId, ticketId, ticket.nonce⟩

end PairingNonceKey

inductive NonceConsumeResult where
  | consumed
  | alreadyConsumed

/-- The contract of a nonce store: a key is consumed once, and tombstones stay. -/
structure PairingNonceStore where
  State : Type
  isConsumed : State → PairingNonceKey → State × Except IdentityError Bool
  consumeAtomically :
    State → PairingNonceKey → Timestamp → State × Except IdentityError NonceConsumeResult
  Tombstone : State → PairingNonceKey → Prop
  isConsumed_keeps {s : State} {key key' : PairingNonceKey} :
    Tombstone s key' → Tombstone (isConsumed s key).1 key'
  consume_keeps {s : State} {key key' : PairingNonceKey} {expiresAt : Timestamp} :
    Tombstone s key' → Tombstone (consumeAtomically s key expiresAt).1 key'
  consume_once {s : State} {key : PairingNonceKey} {expiresAt : Timestamp} :
    (consumeAtomically s key expiresAt).2 = .ok .consumed →
      ¬ Tombstone s key ∧ Tombstone (consumeAtomically s key expiresAt).1 key

/-! Both stores are a table of tombstones under encoded keys, in which only some values are valid. -/

namespace PairingNonceStore
variable {K V : Type} [LinearOrder K] (encode : PairingNonceKey → K) (encodeTime : Timestamp → V)
  (isValid : V → Bool)

def tableIsConsumed (s : Table K V) (key : PairingNonceKey) :
    Table K V × Except IdentityError Bool :=
  match s.get (encode key) with
  | none => (s, .ok false)
  | some value => if isValid value then (s, .ok true) else (s, .error .storageCorruption)

def tableConsumeAtomically (s : Table K V) (key : PairingNonceKey) (expiresAt : Timestamp) :
    Table K V × Except IdentityError NonceConsumeResult :=
  match s.get (encode key) with
  | some value =>
    if isValid value then (s, .ok .alreadyConsumed) else (s, .error .storageCorruption)
  | none =>
    if s.rows.length ≥ MAX_PAIRING_NONCE_TOMBSTONES then
      (s, .error (.limitExceeded "pairing nonce tombstones" (s.rows.length + 1)
        MAX_PAIRING_NONCE_TOMBSTONES))
    else (s.insert (encode key) (encodeTime expiresAt), .ok .consumed)

def ofTable : PairingNonceStore where
  State := Table K V
  isConsumed := tableIsConsumed encode isValid
  consumeAtomically := tableConsumeAtomically encode encodeTime isValid
  Tombstone s key := (s.get (encode key)).isSome = true
  isConsumed_keeps h := by
    unfold tableIsConsumed
    split
    · exact h
    · split <;> exact h
  consume_keeps h := by
    unfold tableConsumeAtomically
    split
    · split <;> exact h
    · split
      · exact h
      · exact Table.isSome_insert h
  consume_once {s key expiresAt} := by
    fun_cases tableConsumeAtomically encode encodeTime isValid s key expiresAt with
    | case4 hget =>
      rw [hget, Table.get_insert_self]
      exact fun _ => ⟨nofun, rfl⟩
    | _ => nofun

end PairingNonceStore

def memoryPairingNonceStore : PairingNonceStore :=
  .ofTable (fun key : PairingNonceKey => key) (fun expiresAt : Timestamp => expiresAt) fun _ => true

def redbPairingNonceStore (encode : PairingNonceKey → Bytes) : PairingNonceStore :=
  .ofTable encode (beBytes 8) fun value => value.length = 8

/-! ## Acceptance and consumption -/

inductive PairingConsumeError where
  | store (error : IdentityError)
  | alreadyConsumed
  | protocol (error : IdentityError)

variable {c} (store : PairingNonceStore)

/-- `accept` up to its first call of the store; the result tells whether the ticket is expired. -/
def acceptCheck (s : store.State) (ticket : PairingTicket c) (now : Timestamp) :
    store.State × Except PairingConsumeError Bool :=
  match Timestamp.checkedAdd now MAX_FUTURE_CLOCK_SKEW with
  | .error e => (s, .error (.protocol e))
  | .ok maximumIssueTime =>
    if ticket.issuedAt > maximumIssueTime then
      (s, .error (.protocol (.invalidRelationship "pairing ticket future issue time")))
    else match PairingNonceKey.forTicket ticket with
      | .error e => (s, .error (.protocol e))
      | .ok key =>
        match store.isConsumed s key with
        | (s, .error e) => (s, .error (.store e))
        | (s, .ok true) => (s, .error .alreadyConsumed)
        | (s, .ok false) => (s, .ok (decide (now > ticket.expiresAt)))

/-- A tombstone for the ticket, as the second call of `accept` and the call of `consume` set it. -/
def consumeKey (s : store.State) (ticket : PairingTicket c) :
    store.State × Except PairingConsumeError PairingTicketId :=
  match PairingNonceKey.forTicket ticket with
  | .error e => (s, .error (.protocol e))
  | .ok key =>
    match store.consumeAtomically s key ticket.expiresAt with
    | (s, .error e) => (s, .error (.store e))
    | (s, .ok .alreadyConsumed) => (s, .error .alreadyConsumed)
    | (s, .ok .consumed) => (s, .ok key.ticketId)

/-- The proposal of `PairingCeremony<Confirmed>::consume`, after its call of the store; `none` is
the expired ceremony. -/
def propose (state : Confirmed) (ticketId : PairingTicketId)
    (now : Timestamp) : Except IdentityError (Option DeviceAuthorizationProposal) := do
  if now > ticket.expiresAt then return none
  let transcriptId ← state.transcript.transcriptId c
  let proposal ← fromConfirmedPairing c ticket.accountId ticket.proposedDevice
    ticket.proposedDeviceId ticketId transcriptId state.proofId state.confirmation
  return some proposal

end
end Krikos.Identity
