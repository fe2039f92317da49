import Krikos.Identity.Pairing
import Krikos.Lib.Run

/-!
# Identity.PairingRun

Any number of pairing ceremonies over one nonce store. The calls of all ceremonies come in any
order, with tickets, devices, proofs, confirmations and times of any kind, and every call of the
store is a step of its own. Every proposal has its evidence in the earlier steps of its own
ceremony (`Evidence`), and a ticket has one proposal at most.
-/

namespace Krikos.Identity

open Lib PairingNonceKey List

/-! ## Ceremonies -/

inductive Phase where
  /-- `accept` has found the ticket expired and is about to consume it. -/
  | expiring
  | issued
  | connected (state : Connected)
  | proven (state : Proven)
  | confirmed (state : Confirmed)
  | consumed (proposal : DeviceAuthorizationProposal)
  | expired
  | cancelled
  /-- The call returned an error, and the ceremony is gone. -/
  | failed (error : PairingConsumeError)

structure PairingCeremony (c : PairingPrimitives) where
  ticket : PairingTicket c
  phase : Phase

/-- A call; the number is the position of the ceremony in the order of the `accept` calls. -/
inductive PairingCall (c : PairingPrimitives) where
  | accept (ticket : PairingTicket c) (now : Timestamp)
  | expire (i : Nat)
  | connect (i : Nat) (controllerDevice : DeviceDescriptor)
      (transport : AuthenticatedTransportBinding) (verifierChallenge : PairingChallenge)
      (connectionSecret : FixedBytes 32)
  | verifyPossession (i : Nat) (proof : PairingPossessionProof)
  | confirm (i : Nat) (controller proposedDevice : PairingConfirmation)
  | consume (i : Nat) (now : Timestamp)
  | cancel (i : Nat)

structure PairingSystem (c : PairingPrimitives) (store : PairingNonceStore) where
  nonces : store.State
  ceremonies : List (PairingCeremony c)

section
variable {c : PairingPrimitives} {store : PairingNonceStore}

def Phase.ofResult {α : Type} (next : α → Phase) : Except IdentityError α → Phase
  | .ok a => next a
  | .error e => .failed (.protocol e)

def Phase.connect (ticket : PairingTicket c) (controllerDevice : DeviceDescriptor)
    (transport : AuthenticatedTransportBinding) (verifierChallenge : PairingChallenge)
    (connectionSecret : FixedBytes 32) : Phase → Phase
  | .issued => ofResult .connected
      (Identity.connect ticket controllerDevice transport verifierChallenge connectionSecret)
  | phase => phase

def Phase.verifyPossession (c : PairingPrimitives) (proof : PairingPossessionProof) : Phase → Phase
  | .connected state => ofResult .proven (Identity.verifyPossession c state proof)
  | phase => phase

def Phase.confirm (ticket : PairingTicket c) (controller proposedDevice : PairingConfirmation) :
    Phase → Phase
  | .proven state =>
    match Identity.confirm ticket state controller proposedDevice with
    | some state => .confirmed state
    | none => .cancelled
  | phase => phase

/-- `cancel`, which the states before the consumption have -/
def Phase.cancel : Phase → Phase
  | .issued => .cancelled
  | .connected _ => .cancelled
  | .proven _ => .cancelled
  | .confirmed _ => .cancelled
  | phase => phase

namespace PairingSystem
variable (sys : PairingSystem c store)

def setPhase (i : Nat) (f : PairingTicket c → Phase → Phase) : PairingSystem c store :=
  { sys with ceremonies := sys.ceremonies.modify i fun x => ⟨x.ticket, f x.ticket x.phase⟩ }

def accept (ticket : PairingTicket c) (now : Timestamp) : PairingSystem c store :=
  let (nonces, result) := acceptCheck store sys.nonces ticket now
  let phase := match result with
    | .ok true => .expiring
    | .ok false => .issued
    | .error e => .failed e
  ⟨nonces, sys.ceremonies ++ [⟨ticket, phase⟩]⟩

/-- The phase after the tombstone of a ticket was asked for. -/
def afterConsume (next : PairingTicketId → Phase) :
    Except PairingConsumeError PairingTicketId → Phase
  | .ok ticketId => next ticketId
  | .error e => .failed e

def consumeWith (i : Nat) (ticket : PairingTicket c)
    (next : PairingTicketId → Phase) : PairingSystem c store :=
  let (nonces, result) := consumeKey store sys.nonces ticket
  ⟨nonces, sys.ceremonies.modify i fun x => ⟨x.ticket, afterConsume next result⟩⟩

def expire (i : Nat) : PairingSystem c store :=
  match sys.ceremonies[i]? with
  | some ⟨ticket, .expiring⟩ => sys.consumeWith i ticket fun _ => .expired
  | _ => sys

/-- The phase after the call of the store in `consume`. -/
def proposed (ticket : PairingTicket c) (state : Confirmed) (now : Timestamp)
    (ticketId : PairingTicketId) : Phase :=
  Phase.ofResult (fun
    | some proposal => .consumed proposal
    | none => .expired) (propose ticket state ticketId now)

def consume (i : Nat) (now : Timestamp) : PairingSystem c store :=
  match sys.ceremonies[i]? with
  | some ⟨ticket, .confirmed state⟩ => sys.consumeWith i ticket (proposed ticket state now)
  | _ => sys

def step : PairingCall c → PairingSystem c store
  | .accept ticket now => sys.accept ticket now
  | .expire i => sys.expire i
  | .connect i controllerDevice transport challenge secret =>
    sys.setPhase i fun ticket => Phase.connect ticket controllerDevice transport challenge secret
  | .verifyPossession i proof => sys.setPhase i fun _ => Phase.verifyPossession c proof
  | .confirm i controller proposedDevice =>
    sys.setPhase i fun ticket => Phase.confirm ticket controller proposedDevice
  | .consume i now => sys.consume i now
  | .cancel i => sys.setPhase i fun _ => Phase.cancel

end PairingSystem

/-! ## Evidence -/

/-- The transcript binds the ticket with its account, device and keys, the transport session and
the controller's device. -/
structure PairingTranscript.Binds (transcript : PairingTranscript) (ticket : PairingTicket c)
    (controllerDevice : DeviceDescriptor) (transport : AuthenticatedTransportBinding)
    (verifierChallenge : PairingChallenge) (connectionSecret : FixedBytes 32) : Prop where
  ticketId : ticket.ticketId = .ok transcript.ticketId
  accountId : transcript.accountId = ticket.accountId
  commitment : transcript.randomSecretCommitment = ticket.randomSecretCommitment
  proposedDevice : transcript.proposedDevice = ticket.proposedDevice
  proposedDeviceId : transcript.proposedDeviceId = ticket.proposedDeviceId
  ephemeral : transcript.pairingEphemeralPublicKey = ticket.ephemeralPublicKey
  controller : transcript.controllerDevice = controllerDevice
  sessionId : transcript.sessionId = transport.sessionId
  exporter : transcript.transportExporterBinding = transport.exporterBinding
  endpoints : transcript.controllerEndpoint = controllerDevice.endpointKey ∧
    transcript.proposedEndpoint = ticket.proposedDevice.endpointKey ∧
    transport.controllerEndpoint = transcript.controllerEndpoint ∧
    transport.proposedEndpoint = transcript.proposedEndpoint
  challenge : transcript.verifierChallenge = verifierChallenge
  connection : transcript.connectionEphemeralPublicKey.asBytes = c.mulBaseClamped connectionSecret

/-- The keyed tag for an agreement key: the hash of the transcript under a key that is derived from
the shared secret of that key and the connection key. -/
def possessionTag (c : PairingPrimitives) (keyContext messageDomain : String)
    (subject : AgreementPublicKey) (transcript : PairingTranscript)
    (connectionSecret : FixedBytes 32) : FixedBytes 32 :=
  c.keyedHash
    (c.deriveKey keyContext ((c.mulClamped subject.asBytes connectionSecret).val ++
      subject.asBytes.val ++ transcript.connectionEphemeralPublicKey.asBytes.val))
    (domainMessage messageDomain (c.transcriptBytes transcript))

/-- Both signatures and both tags of the proof are valid for the transcript. -/
structure PairingPossessionProof.Proves (c : PairingPrimitives) (proof : PairingPossessionProof)
    (transcript : PairingTranscript) (connectionSecret : FixedBytes 32) : Prop where
  application : c.verifyEd25519 transcript.proposedDevice.applicationSigningKey.asBytes.val
    proof.applicationSignature (domainMessage "KRIKOS-ID/pairing-application-possession/v1"
      (c.transcriptBytes transcript)) = true
  endpoint : c.verifyEd25519 transcript.proposedDevice.endpointKey.asSigningKey.asBytes.val
    proof.endpointSignature (domainMessage "KRIKOS-ID/pairing-endpoint-possession/v1"
      (c.transcriptBytes transcript)) = true
  agreement : proof.agreementMac =
    possessionTag c "KRIKOS-ID/pairing-agreement-proof-key/v1"
      "KRIKOS-ID/pairing-agreement-possession/v1" transcript.proposedDevice.agreementKey transcript
      connectionSecret
  ephemeral : proof.pairingEphemeralMac =
    possessionTag c "KRIKOS-ID/pairing-ephemeral-proof-key/v1"
      "KRIKOS-ID/pairing-ephemeral-possession/v1" transcript.pairingEphemeralPublicKey transcript
      connectionSecret
  secret : secretCommitment c proof.randomSecret = transcript.randomSecretCommitment

/-- A participant confirms the short string of the transcript within the validity of the ticket,
signed by its endpoint key. -/
structure PairingConfirmation.Confirms (confirmation : PairingConfirmation)
    (ticket : PairingTicket c) (participant : ConfirmationParticipant)
    (transcriptId : PairingTranscriptId) (endpointKey : EndpointPublicKey) : Prop where
  side : confirmation.participant = participant
  transcript : confirmation.transcriptId = transcriptId
  shortAuth : confirmation.observedShortAuth = ShortAuthString.derive transcriptId
  validity : ticket.issuedAt ≤ confirmation.confirmedAt ∧
    confirmation.confirmedAt ≤ ticket.expiresAt
  signature : c.verifyEd25519 endpointKey.asSigningKey.asBytes.val confirmation.endpointSignature
    (pairingConfirmationSigningBytes c confirmation) = true

/-- The connection of a ceremony. -/
structure Connection where
  controllerDevice : DeviceDescriptor
  transport : AuthenticatedTransportBinding
  verifierChallenge : PairingChallenge
  connectionSecret : FixedBytes 32
  transcript : PairingTranscript

def Connection.call (c : PairingPrimitives) (i : Nat) (x : Connection) : PairingCall c :=
  .connect i x.controllerDevice x.transport x.verifierChallenge x.connectionSecret

def Connection.Bound (x : Connection) (ticket : PairingTicket c) : Prop :=
  x.transcript.Binds ticket x.controllerDevice x.transport x.verifierChallenge x.connectionSecret

/-- The proof of possession for a bound transcript, with the identifiers of both. -/
structure Connection.Established (x : Connection) (ticket : PairingTicket c)
    (proof : PairingPossessionProof) (transcriptId : PairingTranscriptId)
    (proofId : PairingProofId) : Prop where
  bound : x.Bound ticket
  proves : proof.Proves c x.transcript x.connectionSecret
  transcriptId : x.transcript.transcriptId c = .ok transcriptId
  proofId : proof.proofId c = .ok proofId

/-- Both sides confirm. -/
structure Connection.Agreed (x : Connection) (ticket : PairingTicket c)
    (controller proposedDevice : PairingConfirmation) (transcriptId : PairingTranscriptId) :
    Prop where
  controller : controller.Confirms ticket .controller transcriptId x.controllerDevice.endpointKey
  proposedDevice : proposedDevice.Confirms ticket .proposedDevice transcriptId
    ticket.proposedDevice.endpointKey

/-- The proposal names the ticket, its account and its device. -/
structure DeviceAuthorizationProposal.Names (proposal : DeviceAuthorizationProposal)
    (ticket : PairingTicket c) : Prop where
  accountId : proposal.accountId = ticket.accountId
  proposedDevice : proposal.proposedDevice = ticket.proposedDevice
  proposedDeviceId : proposal.proposedDeviceId = ticket.proposedDeviceId
  ticketId : ticket.ticketId = .ok proposal.ticketId

def DeviceAuthorizationProposal.Evidence (proposal : DeviceAuthorizationProposal)
    (ticket : PairingTicket c) (i : Nat) (calls : List (PairingCall c)) : Prop :=
  ∃ (x : Connection) (proof : PairingPossessionProof)
    (controller proposedDevice : PairingConfirmation) (now : Timestamp),
    x.Established ticket proof proposal.transcriptId proposal.proofId ∧
    x.Agreed ticket controller proposedDevice proposal.transcriptId ∧
    [x.call c i, .verifyPossession i proof, .confirm i controller proposedDevice,
      .consume i now].Sublist calls

def Phase.Shown (ticket : PairingTicket c) (i : Nat) (calls : List (PairingCall c)) : Phase → Prop
  | .connected state => ∃ x : Connection, x.Bound ticket ∧
      state = ⟨x.transcript, x.connectionSecret⟩ ∧ [x.call c i].Sublist calls
  | .proven state => ∃ (x : Connection) (proof : PairingPossessionProof),
      x.Established ticket proof state.transcriptId state.proofId ∧
      state.transcript = x.transcript ∧
      state.shortAuth = ShortAuthString.derive state.transcriptId ∧
      [x.call c i, .verifyPossession i proof].Sublist calls
  | .confirmed state => ∃ (x : Connection) (proof : PairingPossessionProof)
      (controller proposedDevice : PairingConfirmation),
      x.Established ticket proof state.confirmation.transcriptId state.proofId ∧
      x.Agreed ticket controller proposedDevice state.confirmation.transcriptId ∧
      state.transcript = x.transcript ∧
      [x.call c i, .verifyPossession i proof, .confirm i controller proposedDevice].Sublist calls
  | .consumed proposal => proposal.Names ticket ∧ proposal.Evidence ticket i calls
  | _ => True

/-! ## Each transition shows its part -/

variable {ticket : PairingTicket c} {i : Nat} {calls : List (PairingCall c)}

lemma canonicalBytes_ok {resource : String} {maximum : Nat} {encoded bytes : Bytes}
    (h : canonicalBytes resource maximum encoded = .ok bytes) : bytes = encoded := by
  simp only [canonicalBytes, bind_ok, reject_ok, pure_ok] at h
  obtain ⟨_, _, rfl⟩ := h
  rfl

variable {key : PairingNonceKey}

lemma forTicket_ok (h : forTicket ticket = .ok key) : ticket.ticketId = .ok key.ticketId := by
  simp only [forTicket, bind_ok, pure_ok] at h
  obtain ⟨id, hid, rfl⟩ := h
  exact hid

lemma connect_ok {controllerDevice : DeviceDescriptor} {transport : AuthenticatedTransportBinding}
    {verifierChallenge : PairingChallenge} {connectionSecret : FixedBytes 32} {state : Connected}
    (h : connect ticket controllerDevice transport verifierChallenge connectionSecret = .ok state) :
    state.connectionSecret = connectionSecret ∧ state.transcript.Binds ticket controllerDevice
      transport verifierChallenge connectionSecret := by
  simp only [connect, connectionPublicKey, PairingTranscript.new, bind_ok, reject_ok, pure_ok] at h
  obtain ⟨_, ⟨_, -, rfl⟩, transcript, ⟨_, -, _, -, _, hends, ticketId, hid, _, -, rfl⟩, rfl⟩ := h
  obtain ⟨hcon, hprop⟩ := not_or.mp hends
  have hprop' := (not_not.mp hprop).trans ticket.endpoint
  exact ⟨rfl, hid, rfl, rfl, rfl, rfl, rfl, rfl, rfl, rfl,
    ⟨not_not.mp hcon, hprop', rfl, rfl⟩, rfl, rfl⟩

variable {publicKey : SigningPublicKey}

lemma verifySignature_ok {message signature : Bytes} {u : Unit}
    (h : verifySignature c publicKey message signature = .ok u) :
    c.verifyEd25519 publicKey.asBytes.val signature message = true := by
  rw [verifySignature, reject_ok] at h
  simpa using h

lemma mac_ok {shared : FixedBytes 32} {keyContext messageDomain : String}
    {subject connection : AgreementPublicKey} {bytes : Bytes} {tag : FixedBytes 32}
    (h : derivePossessionMac c shared keyContext messageDomain subject connection bytes = .ok tag) :
    tag = c.keyedHash (c.deriveKey keyContext
      (shared.val ++ subject.asBytes.val ++ connection.asBytes.val))
      (domainMessage messageDomain bytes) := by
  simp only [derivePossessionMac, bind_ok, pure_ok] at h
  obtain ⟨_, -, rfl⟩ := h
  rfl

lemma diffieHellman_ok {secret shared : FixedBytes 32} {publicKey : AgreementPublicKey}
    (h : diffieHellman c secret publicKey = .ok shared) :
    shared = c.mulClamped publicKey.asBytes secret := by
  simp only [diffieHellman, bind_ok, pure_ok] at h
  obtain ⟨_, -, rfl⟩ := h
  rfl

lemma verifyPossession_ok {state : Connected} {proof : PairingPossessionProof} {next : Proven}
    (h : verifyPossession c state proof = .ok next) :
    proof.Proves c state.transcript state.connectionSecret ∧ next.transcript = state.transcript ∧
      state.transcript.transcriptId c = .ok next.transcriptId ∧
      proof.proofId c = .ok next.proofId ∧
      next.shortAuth = ShortAuthString.derive next.transcriptId := by
  simp only [verifyPossession, PairingTranscript.applicationPossessionSigningBytes,
    PairingTranscript.endpointPossessionSigningBytes, bind_ok, reject_ok, pure_ok] at h
  obtain ⟨transcriptId, hid, _, -, _, hsec, _, ⟨bytes, hbyt, rfl⟩, _, happ, _,
    ⟨bytes', hbyt', rfl⟩, _, hend, bytes'', hbyt'', shared, hshar, tag, htag, _, hmac,
    shared', hshar', tag', htag', _, hmac', proofId, hproof, rfl⟩ := h
  cases canonicalBytes_ok hbyt
  cases canonicalBytes_ok hbyt'
  cases canonicalBytes_ok hbyt''
  cases diffieHellman_ok hshar
  cases diffieHellman_ok hshar'
  cases mac_ok htag
  cases mac_ok htag'
  rw [verifyMac, reject_ok] at hmac hmac'
  refine ⟨⟨verifySignature_ok happ, verifySignature_ok hend, not_not.mp hmac,
    not_not.mp hmac', not_not.mp hsec⟩, rfl, hid, hproof, rfl⟩

lemma signature_of_valid {confirmation : PairingConfirmation}
    (h : confirmationSignatureIsValid c confirmation publicKey = true) :
    c.verifyEd25519 publicKey.asBytes.val confirmation.endpointSignature
      (pairingConfirmationSigningBytes c confirmation) = true := by
  unfold confirmationSignatureIsValid at h
  cases hv : verifySignature c publicKey (pairingConfirmationSigningBytes c confirmation)
      confirmation.endpointSignature with
  | ok u => exact verifySignature_ok hv
  | error e =>
    rw [hv] at h
    cases h

lemma confirm_some {state : Proven} {controller proposedDevice : PairingConfirmation}
    {next : Confirmed} (hshor : state.shortAuth = ShortAuthString.derive state.transcriptId)
    (h : confirm ticket state controller proposedDevice = some next) :
    next.transcript = state.transcript ∧ next.proofId = state.proofId ∧
      next.confirmation.transcriptId = state.transcriptId ∧
      controller.Confirms ticket .controller state.transcriptId
        state.transcript.controllerDevice.endpointKey ∧
      proposedDevice.Confirms ticket .proposedDevice state.transcriptId
        state.transcript.proposedDevice.endpointKey := by
  unfold confirm at h
  split at h
  · cases h
  · rename_i hall
    cases h
    simp only [Bool.or_eq_true, Bool.not_eq_true', not_or, Bool.not_eq_false, contextValid,
      Bool.and_eq_true, decide_eq_true_eq] at hall
    obtain ⟨⟨⟨⟨⟨⟨⟨⟨⟨⟨⟨hc, hd⟩, hct⟩, hdt⟩, hcs⟩, hds⟩, hci⟩, hdi⟩, hce⟩, hde⟩, hsigc⟩, hsigd⟩ := hall
    exact ⟨rfl, rfl, rfl, ⟨hc, hct, hcs.trans hshor, ⟨hci, hce⟩, signature_of_valid hsigc⟩,
      ⟨hd, hdt, hds.trans hshor, ⟨hdi, hde⟩, signature_of_valid hsigd⟩⟩

variable {ticketId : PairingTicketId}

lemma propose_some {state : Confirmed} {now : Timestamp}
    {proposal : DeviceAuthorizationProposal} (hid : ticket.ticketId = .ok ticketId)
    (h : propose ticket state ticketId now = .ok (some proposal)) :
    proposal.Names ticket ∧ proposal.proofId = state.proofId ∧
      proposal.transcriptId = state.confirmation.transcriptId := by
  unfold propose at h
  split at h
  · cases h
  · simp only [fromConfirmedPairing, bind_ok, reject_ok, pure_ok] at h
    obtain ⟨transcriptId, -, _, ⟨_, -, _, hconf, _, -, rfl⟩, h⟩ := h
    cases h
    exact ⟨⟨rfl, rfl, rfl, hid⟩, rfl, (not_not.mp hconf).symm⟩

/-! ## Tombstones -/

variable {s : store.State}

lemma acceptCheck_keeps {now : Timestamp}
    (h : store.Tombstone s key) : store.Tombstone (acceptCheck store s ticket now).1 key := by
  unfold acceptCheck
  split
  · exact h
  · split
    · exact h
    · split
      · exact h
      · rename_i key' _
        have hkept := @PairingNonceStore.isConsumed_keeps store s key' key h
        split <;> rename_i heq <;> rw [heq] at hkept <;> exact hkept

lemma consumeKey_keeps (h : store.Tombstone s key) :
    store.Tombstone (consumeKey store s ticket).1 key := by
  unfold consumeKey
  split
  · exact h
  · rename_i key' _
    have hkept := @PairingNonceStore.consume_keeps store s key' key ticket.expiresAt h
    split <;> rename_i heq <;> rw [heq] at hkept <;> exact hkept

lemma consumeKey_ok (h : (consumeKey store s ticket).2 = .ok ticketId) :
    ∃ key, forTicket ticket = .ok key ∧ ticket.ticketId = .ok ticketId ∧
      ¬ store.Tombstone s key ∧ store.Tombstone (consumeKey store s ticket).1 key := by
  unfold consumeKey at h ⊢
  cases hkey : forTicket ticket with
  | error e =>
    rw [hkey] at h
    cases h
  | ok key =>
    simp only [hkey] at h ⊢
    have hid := forTicket_ok hkey
    have honce := @PairingNonceStore.consume_once store s key ticket.expiresAt
    split at h
    · cases h
    · cases h
    · rename_i heq
      cases h
      rw [heq] at honce
      exact ⟨key, rfl, hid, honce rfl⟩

/-! ## The invariant -/

namespace PairingSystem
variable {sys : PairingSystem c store} {call : PairingCall c}

structure Inv (calls : List (PairingCall c)) (sys : PairingSystem c store) : Prop where
  shown : ∀ (i : Nat) (x : PairingCeremony c), sys.ceremonies[i]? = some x →
    x.phase.Shown x.ticket i calls
  tombstone : ∀ (i : Nat) (x : PairingCeremony c) (proposal : DeviceAuthorizationProposal),
    sys.ceremonies[i]? = some x → x.phase = .consumed proposal →
    ∀ key, forTicket x.ticket = .ok key → store.Tombstone sys.nonces key
  unique : ∀ (i j : Nat) (x y : PairingCeremony c)
    (proposal proposal' : DeviceAuthorizationProposal), sys.ceremonies[i]? = some x →
    sys.ceremonies[j]? = some y → x.phase = .consumed proposal → y.phase = .consumed proposal' →
    x.ticket = y.ticket → i = j

lemma inv_new (nonces : store.State) : (⟨nonces, []⟩ : PairingSystem c store).Inv [] :=
  ⟨fun _ _ h => by simp at h, fun _ _ _ h => by simp at h, fun _ _ _ _ _ _ h => by simp at h⟩

variable {phase : Phase}

lemma shown_later (h : phase.Shown ticket i calls) : phase.Shown ticket i (calls ++ [call]) := by
  have hlat {l : List (PairingCall c)} (hl : l.Sublist calls) : l.Sublist (calls ++ [call]) :=
    hl.trans (sublist_append_left calls [call])
  cases phase with
  | connected state =>
    obtain ⟨x, hboun, hstat, hcal⟩ := h
    exact ⟨x, hboun, hstat, hlat hcal⟩
  | proven state =>
    obtain ⟨x, proof, hest, htran, hshor, hcal⟩ := h
    exact ⟨x, proof, hest, htran, hshor, hlat hcal⟩
  | confirmed state =>
    obtain ⟨x, proof, controller, proposedDevice, hest, hagr, hstat, hcal⟩ := h
    exact ⟨x, proof, controller, proposedDevice, hest, hagr, hstat, hlat hcal⟩
  | consumed proposal =>
    obtain ⟨hnam, x, proof, controller, proposedDevice, now, hest, hagr, hcal⟩ := h
    exact ⟨hnam, x, proof, controller, proposedDevice, now, hest, hagr, hlat hcal⟩
  | expiring | issued | expired | cancelled | failed error => trivial

lemma get_modify {f : PairingCeremony c → PairingCeremony c} {j : Nat} {y : PairingCeremony c}
    (h : (sys.ceremonies.modify i f)[j]? = some y) :
    ∃ x, sys.ceremonies[j]? = some x ∧ y = if i = j then f x else x := by
  rw [getElem?_modify] at h
  cases hx : sys.ceremonies[j]? with
  | none => simp [hx] at h
  | some x =>
    rw [hx] at h
    exact ⟨x, rfl, (Option.some.inj h).symm⟩

/-- A step that shows the phase of every ceremony keeps the invariant, if a proposal in it is an old
one, or one of the ceremony `i` with a fresh tombstone. -/
lemma Inv.of_step (h : sys.Inv calls) (i : Nat) {next : PairingSystem c store}
    (hkeep : ∀ {key}, store.Tombstone sys.nonces key → store.Tombstone next.nonces key)
    (hnext : ∀ j y, next.ceremonies[j]? = some y → y.phase.Shown y.ticket j (calls ++ [call]) ∧
      ∀ proposal, y.phase = .consumed proposal →
        (∃ x, sys.ceremonies[j]? = some x ∧ x.ticket = y.ticket ∧ x.phase = .consumed proposal) ∨
        j = i ∧ ∃ key, forTicket y.ticket = .ok key ∧ ¬ store.Tombstone sys.nonces key ∧
          store.Tombstone next.nonces key) :
    next.Inv (calls ++ [call]) := by
  refine ⟨fun j y hy => (hnext j y hy).1, fun j y proposal hy hp key hkey => ?_,
    fun j k y z proposal proposal' hy hz hp hp' htic => ?_⟩
  · rcases (hnext j y hy).2 proposal hp with ⟨x, hx, hsame, hphas⟩ | ⟨-, key', hkey', -, hnew⟩
    · exact hkeep (h.tombstone j x proposal hx hphas key (hsame ▸ hkey))
    · cases hkey.symm.trans hkey'
      exact hnew
  · -- with a proposal of the same ticket that is old, the tombstone would not be fresh
    rcases (hnext j y hy).2 proposal hp with ⟨x, hx, hsame, hphas⟩ | ⟨hj, key, hkey, hold, -⟩
    · rcases (hnext k z hz).2 proposal' hp' with
        ⟨x', hx', hsame', hphas'⟩ | ⟨-, key, hkey, hold, -⟩
      · exact h.unique j k x x' proposal proposal' hx hx' hphas hphas'
          (hsame.trans (htic.trans hsame'.symm))
      · rw [← htic, ← hsame] at hkey
        exact absurd (h.tombstone j x proposal hx hphas key hkey) hold
    · rcases (hnext k z hz).2 proposal' hp' with ⟨x', hx', hsame', hphas'⟩ | ⟨hk, -⟩
      · rw [htic, ← hsame'] at hkey
        exact absurd (h.tombstone k x' proposal' hx' hphas' key hkey) hold
      · rw [hj, hk]

lemma Inv.setPhase (h : sys.Inv calls) {f : PairingTicket c → Phase → Phase}
    (hshow : ∀ ticket phase, phase.Shown ticket i calls →
      (f ticket phase).Shown ticket i (calls ++ [call]))
    (hcons : ∀ ticket phase proposal, f ticket phase = .consumed proposal →
      phase = .consumed proposal) :
    (sys.setPhase i f).Inv (calls ++ [call]) := by
  refine h.of_step i id fun j y hy => ?_
  obtain ⟨x, hx, rfl⟩ := get_modify hy
  split
  · rename_i hij
    subst hij
    exact ⟨hshow x.ticket x.phase (h.shown i x hx), fun proposal hp =>
      .inl ⟨x, hx, rfl, hcons x.ticket x.phase proposal hp⟩⟩
  · exact ⟨shown_later (h.shown j x hx), fun _ hp => .inl ⟨x, hx, rfl, hp⟩⟩

lemma Inv.accept (h : sys.Inv calls) (ticket : PairingTicket c) (now : Timestamp) :
    (sys.accept ticket now).Inv (calls ++ [call]) := by
  obtain ⟨phase, hcer, hphas, hnot, hnon⟩ : ∃ phase : Phase,
      (sys.accept ticket now).ceremonies = sys.ceremonies ++ [⟨ticket, phase⟩] ∧
      (∀ j, phase.Shown ticket j (calls ++ [call])) ∧ (∀ proposal, phase ≠ .consumed proposal) ∧
      (sys.accept ticket now).nonces = (acceptCheck store sys.nonces ticket now).1 := by
    unfold PairingSystem.accept
    rcases acceptCheck store sys.nonces ticket now with ⟨nonces, _ | _ | _⟩
    all_goals exact ⟨_, rfl, fun _ => trivial, nofun, rfl⟩
  refine h.of_step 0 (fun hkey => hnon ▸ acceptCheck_keeps hkey) fun j y hy => ?_
  rw [hcer, getElem?_append] at hy
  split at hy
  · exact ⟨shown_later (h.shown j y hy), fun _ hp => .inl ⟨y, hy, rfl, hp⟩⟩
  · rw [getElem?_singleton] at hy
    split at hy
    · cases hy
      exact ⟨hphas j, fun proposal hp => absurd hp (hnot proposal)⟩
    · cases hy

/-- A call that asks for the tombstone of a ticket; only with a fresh one there is a proposal. -/
lemma Inv.consumeWith (h : sys.Inv calls) {next : PairingTicketId → Phase}
    (hx : sys.ceremonies[i]? = some ⟨ticket, phase⟩)
    (hshow : ∀ ticketId, ticket.ticketId = .ok ticketId →
      (next ticketId).Shown ticket i (calls ++ [call])) :
    (sys.consumeWith i ticket next).Inv (calls ++ [call]) := by
  have hcer : (sys.consumeWith i ticket next).ceremonies = sys.ceremonies.modify i fun x =>
    ⟨x.ticket, afterConsume next (consumeKey store sys.nonces ticket).2⟩ := rfl
  refine h.of_step i consumeKey_keeps fun j y hy => ?_
  rw [hcer] at hy
  obtain ⟨z, hz, rfl⟩ := get_modify hy
  split
  · rename_i hij
    subst hij
    rw [hx] at hz
    cases hz
    cases hres : (consumeKey store sys.nonces ticket).2 with
    | error e => exact ⟨trivial, nofun⟩
    | ok ticketId =>
      obtain ⟨key, hkey, hid, hfresh⟩ := consumeKey_ok hres
      exact ⟨hshow ticketId hid, fun _ _ => .inr ⟨rfl, key, hkey, hfresh⟩⟩
  · exact ⟨shown_later (h.shown j z hz), fun _ hp => .inl ⟨z, hz, rfl, hp⟩⟩

/-! ## Steps and runs -/

lemma sublist_snoc {l : List (PairingCall c)} (h : l.Sublist calls) :
    (l ++ [call]).Sublist (calls ++ [call]) := h.append (List.Sublist.refl [call])

lemma shown_connect {controllerDevice : DeviceDescriptor}
    {transport : AuthenticatedTransportBinding} {challenge : PairingChallenge}
    {secret : FixedBytes 32} (h : phase.Shown ticket i calls) :
    (phase.connect ticket controllerDevice transport challenge secret).Shown ticket i
      (calls ++ [.connect i controllerDevice transport challenge secret]) := by
  unfold Phase.connect
  split
  · cases hres : connect ticket controllerDevice transport challenge secret with
    | error e => trivial
    | ok state =>
      obtain ⟨hsec, hbin⟩ := connect_ok hres
      refine ⟨⟨controllerDevice, transport, challenge, secret, state.transcript⟩, hbin, ?_, ?_⟩
      · rw [← hsec]
      · exact sublist_append_right calls _
  · exact shown_later h

lemma shown_verifyPossession {proof : PairingPossessionProof} (h : phase.Shown ticket i calls) :
    (phase.verifyPossession c proof).Shown ticket i (calls ++ [.verifyPossession i proof]) := by
  unfold Phase.verifyPossession
  split
  · rename_i state
    obtain ⟨x, hboun, rfl, hcal⟩ := h
    cases hres : verifyPossession c ⟨x.transcript, x.connectionSecret⟩ proof with
    | error e => trivial
    | ok next =>
      obtain ⟨hprov, htran, hid, hproof, hshor⟩ := verifyPossession_ok hres
      exact ⟨x, proof, ⟨hboun, hprov, hid, hproof⟩, htran, hshor, sublist_snoc hcal⟩
  · exact shown_later h

lemma shown_confirm {controller proposedDevice : PairingConfirmation}
    (h : phase.Shown ticket i calls) :
    (phase.confirm ticket controller proposedDevice).Shown ticket i
      (calls ++ [.confirm i controller proposedDevice]) := by
  unfold Phase.confirm
  split
  · rename_i state
    obtain ⟨x, proof, hest, htran, hshor, hcal⟩ := h
    split
    · rename_i next hres
      obtain ⟨hsame, hproof, hid, hcon, hprop⟩ := confirm_some hshor hres
      rw [htran] at hcon hprop
      rw [hest.bound.controller] at hcon
      rw [hest.bound.proposedDevice] at hprop
      refine ⟨x, proof, controller, proposedDevice, ?_, ?_, hsame.trans htran, sublist_snoc hcal⟩
      · rw [hid, hproof]
        exact hest
      · rw [hid]
        exact ⟨hcon, hprop⟩
    · trivial
  · exact shown_later h

lemma shown_proposed {state : Confirmed} {now : Timestamp} {ticketId : PairingTicketId}
    (hid : ticket.ticketId = .ok ticketId) (h : (Phase.confirmed state).Shown ticket i calls) :
    (proposed ticket state now ticketId).Shown ticket i (calls ++ [.consume i now]) := by
  obtain ⟨x, proof, controller, proposedDevice, hest, hagr, hstat, hcal⟩ := h
  unfold proposed
  cases hres : propose ticket state ticketId now with
  | error e => trivial
  | ok result =>
    cases result with
    | none => trivial
    | some proposal =>
      obtain ⟨hnam, hproof, htran⟩ := propose_some hid hres
      refine ⟨hnam, x, proof, controller, proposedDevice, now, ?_, ?_, sublist_snoc hcal⟩
      · rw [hproof, htran]
        exact hest
      · rw [htran]
        exact hagr

lemma Inv.step (h : sys.Inv calls) : (sys.step call).Inv (calls ++ [call]) := by
  have hsame : sys.Inv (calls ++ [call]) :=
    ⟨fun i x hx => shown_later (h.shown i x hx), h.tombstone, h.unique⟩
  cases call with
  | accept ticket now => exact h.accept ticket now
  | expire i =>
    show (sys.expire i).Inv _
    unfold PairingSystem.expire
    split
    · rename_i ticket hx
      exact h.consumeWith hx fun _ _ => trivial
    · exact hsame
  | connect i controllerDevice transport challenge secret =>
    refine h.setPhase (fun _ _ => shown_connect) fun ticket phase proposal hp => ?_
    unfold Phase.connect at hp
    split at hp
    · unfold Phase.ofResult at hp
      split at hp <;> cases hp
    · exact hp
  | verifyPossession i proof =>
    refine h.setPhase (fun _ _ => shown_verifyPossession) fun ticket phase proposal hp => ?_
    unfold Phase.verifyPossession at hp
    split at hp
    · unfold Phase.ofResult at hp
      split at hp <;> cases hp
    · exact hp
  | confirm i controller proposedDevice =>
    refine h.setPhase (fun _ _ => shown_confirm) fun ticket phase proposal hp => ?_
    unfold Phase.confirm at hp
    split at hp
    · split at hp <;> cases hp
    · exact hp
  | consume i now =>
    show (sys.consume i now).Inv _
    unfold PairingSystem.consume
    split
    · rename_i ticket state hx
      exact h.consumeWith hx fun ticketId hid => shown_proposed hid (h.shown i _ hx)
    · exact hsame
  | cancel i =>
    show (sys.setPhase i fun _ => Phase.cancel).Inv _
    refine h.setPhase (fun ticket phase hphas => ?_) fun ticket phase proposal hp => ?_
    · cases phase with
      | consumed proposal => exact shown_later hphas
      | _ => trivial
    · cases phase <;> first | exact hp | cases hp

lemma inv_run (nonces : store.State) (calls : List (PairingCall c)) :
    (run step (⟨nonces, []⟩ : PairingSystem c store) calls).Inv calls := by
  induction calls using reverseRecOn with
  | nil => exact inv_new nonces
  | append_singleton calls call ih =>
    rw [run_append]
    exact ih.step

/-- Over any calls of any ceremonies on one nonce store, a ticket has one proposal
at most, and every proposal names its ticket and has its evidence in the calls of its ceremony. -/
theorem proposals_once_and_proven (nonces : store.State) (calls : List (PairingCall c)) :
    (∀ (i j : Nat) (ticket : PairingTicket c) (proposal proposal' : DeviceAuthorizationProposal),
      (run step (⟨nonces, []⟩ : PairingSystem c store) calls).ceremonies[i]? =
        some ⟨ticket, .consumed proposal⟩ →
      (run step (⟨nonces, []⟩ : PairingSystem c store) calls).ceremonies[j]? =
        some ⟨ticket, .consumed proposal'⟩ → i = j) ∧
    ∀ (i : Nat) (ticket : PairingTicket c) (proposal : DeviceAuthorizationProposal),
      (run step (⟨nonces, []⟩ : PairingSystem c store) calls).ceremonies[i]? =
        some ⟨ticket, .consumed proposal⟩ →
      proposal.Names ticket ∧ proposal.Evidence ticket i calls := by
  have h := inv_run nonces calls
  constructor
  · intro i j ticket proposal proposal' hi hj
    exact h.unique i j _ _ proposal proposal' hi hj rfl rfl rfl
  · intro i ticket proposal hi
    exact h.shown i _ hi

end PairingSystem
end
end Krikos.Identity
