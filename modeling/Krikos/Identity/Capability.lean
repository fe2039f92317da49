import Krikos.Identity.Event

/-!
# Identity.Capability

Evaluation of capability requests. A request is allowed by a grant that is installed for the
requesting device, or through a chain of signed delegations from an installed root grant, each of
which has to narrow its parent.

The evaluator rechecks everything that the constructor of a chain checks, so that a chain is any
root with any links here. What it asks about the account is the state view, and signatures are
verified outside.
-/

namespace Krikos.Identity

open Lib List CapabilityConstraint

/-! ## Grants, chains and requests -/

structure AuthorizationContext where
  accountId : AccountId
  epoch : Epoch
  checkpointId : CheckpointId

structure CapabilityRoot where
  authorizationContext : AuthorizationContext
  holder : DeviceId
  grant : CapabilityGrant
  extensions : Extensions

structure DelegationBody where
  parentGrantId : CapabilityGrantId
  childGrant : CapabilityGrant
  issuer : DeviceId
  subject : DeviceId
  authorizationContext : AuthorizationContext
  issuedAt : Timestamp
  nonce : FixedBytes 16
  extensions : Extensions

structure SignedDelegation where
  body : DelegationBody
  signature : Bytes

structure DelegationChain where
  root : CapabilityRoot
  links : List SignedDelegation

def DelegationChain.leafHolder (chain : DelegationChain) : DeviceId :=
  match chain.links.getLast? with
  | some link => link.body.subject
  | none => chain.root.holder

structure CapabilityRequest where
  authorizationContext : AuthorizationContext
  applicationId : Digest
  deviceId : DeviceId
  capabilityNamespace : String
  action : String
  resource : ResourcePath
  evaluatedAt : Timestamp

inductive CapabilityProof where
  | direct
  | delegated (chain : DelegationChain)

inductive CapabilityDeviceStatus where
  | unknown
  | active
  | suspended
  | revoked
  deriving DecidableEq

inductive DelegationSignatureStatus where
  | verified
  | invalid
  | unavailable

/-- The facts about the account that the evaluation reads. -/
structure CapabilityStateView where
  authorizationContext : AuthorizationContext
  deviceStatus : DeviceId → CapabilityDeviceStatus
  rootGrants : DeviceId → List CapabilityGrant
  isGrantRevoked : CapabilityGrantId → Bool
  isDelegationRevoked : DelegationId → Bool
  recognizesAuthorizationContext : AuthorizationContext → Bool
  authorizationContextPrecedesOrEquals : AuthorizationContext → AuthorizationContext → Bool
  authorizationContextTimestamp : AuthorizationContext → Option Timestamp
  deviceStatusAt : DeviceId → AuthorizationContext → CapabilityDeviceStatus
  heldGrantAt : DeviceId → CapabilityGrantId → AuthorizationContext → Bool

inductive CapabilityDenialReason where
  | accountMismatch
  | epochMismatch
  | checkpointMismatch
  | unknownDevice
  | deviceSuspended
  | deviceRevoked
  | stateViewLimitExceeded
  | noMatchingGrant
  | namespaceNotGranted
  | actionNotGranted
  | resourceNotGranted
  | constraintUnsatisfied
  | grantExpired
  | grantRevoked
  | parentGrantRevoked
  | delegationRevoked
  | invalidDelegationChain
  | unrecognizedAuthorizationContext
  | delegationNotYetValid
  | authorizationContextRollback
  | issuerNotActiveAtIssuance
  | parentGrantNotHeldAtIssuance
  | parentGrantInvalidAtIssuance
  | rootGrantNotHeldAtContext
  | rootHolderNotActiveAtContext
  | rootContextTimestampUnavailable
  | rootGrantInvalidAtContext
  | delegationContextTimestampUnavailable
  | delegationIssuedBeforeContext
  | delegationIssuanceRollback
  | invalidDelegationSignature
  | signatureVerificationUnavailable

inductive CapabilityOutcome where
  | allowed (grantId : CapabilityGrantId) (delegationId : Option DelegationId)
  | denied (reason : CapabilityDenialReason)

structure CapabilityDecision where
  authorizationContext : AuthorizationContext
  applicationId : Digest
  deviceId : DeviceId
  outcome : CapabilityOutcome

def CapabilityDecision.isAllowed (decision : CapabilityDecision) : Bool :=
  match decision.outcome with
  | .allowed _ _ => true
  | .denied _ => false

/-- `allowed` and `denied`: the outcome with what the request was about. -/
def CapabilityDecision.ofResult (request : CapabilityRequest)
    (result : Except CapabilityDenialReason (CapabilityGrantId × Option DelegationId)) :
    CapabilityDecision where
  authorizationContext := request.authorizationContext
  applicationId := request.applicationId
  deviceId := request.deviceId
  outcome :=
    match result with
    | .ok (grantId, delegationId) => .allowed grantId delegationId
    | .error reason => .denied reason

/-! ## Matching a grant -/

def pathStartsWith (path start : ResourcePath) : Bool :=
  decide (path.length ≥ start.length) && (path.zip start).all fun pair => pair.1 = pair.2

def selectorContains (selector : ResourceSelector) (resource : ResourcePath) : Bool :=
  match selector with
  | .exact expected => decide (expected = resource)
  | .startingWith start => pathStartsWith resource start

def CapabilityConstraint.holds (constraint : CapabilityConstraint) (epoch : Epoch)
    (evaluatedAt : Timestamp) : Bool :=
  match constraint with
  | .accountEpochAtLeast minimum => decide (epoch ≥ minimum)
  | .accountEpochAtMost maximum => decide (epoch ≤ maximum)
  | .validFrom time => decide (evaluatedAt ≥ time)

def constraintsHold (constraints : List CapabilityConstraint) (epoch : Epoch)
    (evaluatedAt : Timestamp) : Bool :=
  constraints.all fun constraint => constraint.holds epoch evaluatedAt

variable (grant : CapabilityGrant)

def grantIsValidAt (epoch : Epoch) (evaluatedAt : Timestamp) : Bool :=
  constraintsHold grant.constraints epoch evaluatedAt &&
    grant.expiresAt.all fun expiresAt => decide (evaluatedAt < expiresAt)

def grantMismatch (request : CapabilityRequest) : Option CapabilityDenialReason :=
  if grant.capabilityNamespace ≠ request.capabilityNamespace then some .namespaceNotGranted
  else if grant.action ≠ request.action then some .actionNotGranted
  else if selectorContains grant.resource request.resource = false then some .resourceNotGranted
  else if constraintsHold grant.constraints request.authorizationContext.epoch
      request.evaluatedAt = false then some .constraintUnsatisfied
  else if grant.expiresAt.any fun expiresAt => decide (request.evaluatedAt ≥ expiresAt) then
    some .grantExpired
  else none

/-! ## Narrowing

Each part answers whether the child is strictly narrower than the parent, or `none` where the
child is wider. -/

def resourceNarrowing (parent child : ResourceSelector) : Option Bool :=
  match parent, child with
  | .exact parent, .exact child => if parent = child then some false else none
  | .startingWith parent, .startingWith child =>
    if pathStartsWith child parent then some (decide (parent ≠ child)) else none
  | .startingWith parent, .exact child => if pathStartsWith child parent then some true else none
  | .exact _, .startingWith _ => none

def constraintValue (constraints : List CapabilityConstraint) (code : Nat) : Option Nat :=
  constraints.findSome? fun constraint =>
    match constraint with
    | .accountEpochAtLeast epoch => if code = 1 then some epoch else none
    | .accountEpochAtMost epoch => if code = 2 then some epoch else none
    | .validFrom time => if code = 3 then some time else none

/-- One turn of the loop over the codes: 2 is an upper bound, 1 and 3 are lower bounds. -/
def constraintNarrowingAt (parent child : List CapabilityConstraint) (code : Nat) : Option Bool :=
  match constraintValue parent code, constraintValue child code with
  | some _, none => none
  | some parentValue, some childValue =>
    if code = 2 then
      if childValue ≤ parentValue then some (decide (childValue < parentValue)) else none
    else if childValue ≥ parentValue then some (decide (childValue > parentValue)) else none
  | none, some _ => some true
  | none, none => some false

def constraintNarrowing (parent child : List CapabilityConstraint) : Option Bool := do
  let epochAtLeast ← constraintNarrowingAt parent child 1
  let epochAtMost ← constraintNarrowingAt parent child 2
  let validFrom ← constraintNarrowingAt parent child 3
  return epochAtLeast || epochAtMost || validFrom

def expirationNarrowing (parent child : Option Timestamp) : Option Bool :=
  match parent, child with
  | none, none => some false
  | none, some _ => some true
  | some _, none => none
  | some parent, some child => if child ≤ parent then some (decide (child < parent)) else none

def permissionNarrowing (parent child : DelegationPermission) : Option Bool :=
  match parent.remaining, child.remaining with
  | none, _ => none
  | some _, none => some true
  | some parent, some child => if child.get < parent.get then some true else none

def isStrictNarrowing (parent child : CapabilityGrant) : Bool :=
  if parent.capabilityNamespace ≠ child.capabilityNamespace ∨ parent.action ≠ child.action then
    false
  else
    match resourceNarrowing parent.resource child.resource,
      constraintNarrowing parent.constraints child.constraints,
      expirationNarrowing parent.expiresAt child.expiresAt,
      permissionNarrowing parent.delegation child.delegation with
    | some resource, some constraint, some expiration, some permission =>
      resource || constraint || expiration || permission
    | _, _, _, _ => false

/-! ## Evaluation -/

variable (grantId : CapabilityGrant → CapabilityGrantId)
  (delegationId : DelegationBody → DelegationId)
  (state : CapabilityStateView) (signatures : SignedDelegation → DelegationSignatureStatus)
  (request : CapabilityRequest)

def validateCurrentContext : Except CapabilityDenialReason Unit := do
  let requested := request.authorizationContext
  let current := state.authorizationContext
  reject (requested.accountId ≠ current.accountId) .accountMismatch
  reject (requested.epoch ≠ current.epoch) .epochMismatch
  reject (requested.checkpointId ≠ current.checkpointId) .checkpointMismatch

def validateDeviceStatus (status : CapabilityDeviceStatus) : Except CapabilityDenialReason Unit :=
  match status with
  | .active => .ok ()
  | .unknown => .error .unknownDevice
  | .suspended => .error .deviceSuspended
  | .revoked => .error .deviceRevoked

def mismatchPriority : CapabilityDenialReason → Nat
  | .noMatchingGrant => 0
  | .namespaceNotGranted => 1
  | .actionNotGranted => 2
  | .resourceNotGranted => 3
  | .constraintUnsatisfied => 4
  | .grantExpired => 5
  | .grantRevoked => 6
  | _ => 0

/-- The loop of `evaluate_direct`, which keeps the most specific denial. -/
def matchDirect : List CapabilityGrant → CapabilityDenialReason →
    Except CapabilityDenialReason (CapabilityGrantId × Option DelegationId)
  | [], bestDenial => .error bestDenial
  | grant :: rest, bestDenial =>
    let keep (mismatch : CapabilityDenialReason) :=
      if mismatchPriority mismatch > mismatchPriority bestDenial then mismatch else bestDenial
    match grantMismatch grant request with
    | some reason => matchDirect rest (keep reason)
    | none =>
      if state.isGrantRevoked (grantId grant) then matchDirect rest (keep .grantRevoked)
      else .ok (grantId grant, none)

def evaluateDirect : Except CapabilityDenialReason (CapabilityGrantId × Option DelegationId) := do
  let grants := state.rootGrants request.deviceId
  reject (grants.length > MAX_CAPABILITIES_PER_DEVICE) .stateViewLimitExceeded
  matchDirect grantId state request grants .noMatchingGrant

def contextsAreMonotonic (ancestor descendant : AuthorizationContext) : Bool :=
  decide (ancestor.accountId = descendant.accountId ∧ ancestor.epoch ≤ descendant.epoch)

def contextIsUsable (context : AuthorizationContext) : Bool :=
  decide (context.accountId = request.authorizationContext.accountId) &&
    contextsAreMonotonic context request.authorizationContext &&
    state.recognizesAuthorizationContext context &&
    state.authorizationContextPrecedesOrEquals context request.authorizationContext

/-- The variables of the loop over the links. -/
structure ChainCursor where
  currentHolder : DeviceId
  currentGrant : CapabilityGrant
  currentGrantId : CapabilityGrantId
  previousContext : AuthorizationContext
  previousIssuedAt : Timestamp
  lastDelegationId : Option DelegationId
  seenDevices : List DeviceId
  seenGrants : List CapabilityGrantId
  seenDelegations : List DelegationId

def validateSignature (link : SignedDelegation) : Except CapabilityDenialReason Unit :=
  match signatures link with
  | .verified => .ok ()
  | .invalid => .error .invalidDelegationSignature
  | .unavailable => .error .signatureVerificationUnavailable

def followLink (cursor : ChainCursor) (link : SignedDelegation) (isLeaf : Bool) :
    Except CapabilityDenialReason ChainCursor := do
  let body := link.body
  let context := body.authorizationContext
  reject (body.issuer ≠ cursor.currentHolder ∨ body.parentGrantId ≠ cursor.currentGrantId)
    .invalidDelegationChain
  reject (contextIsUsable state request context = false) .unrecognizedAuthorizationContext
  reject (contextsAreMonotonic cursor.previousContext context = false ∨
    state.authorizationContextPrecedesOrEquals cursor.previousContext context = false)
    .authorizationContextRollback
  let contextTimestamp ← okOr (state.authorizationContextTimestamp context)
    .delegationContextTimestampUnavailable
  reject (contextTimestamp > body.issuedAt) .delegationIssuedBeforeContext
  reject (cursor.previousIssuedAt > body.issuedAt) .delegationIssuanceRollback
  reject (state.deviceStatusAt body.issuer context ≠ .active) .issuerNotActiveAtIssuance
  reject (state.heldGrantAt body.issuer cursor.currentGrantId context = false)
    .parentGrantNotHeldAtIssuance
  reject (grantIsValidAt cursor.currentGrant context.epoch body.issuedAt = false)
    .parentGrantInvalidAtIssuance
  reject (state.isGrantRevoked cursor.currentGrantId) .parentGrantRevoked
  reject (body.subject ∈ cursor.seenDevices) .invalidDelegationChain
  validateDeviceStatus (state.deviceStatus body.subject)
  reject (isStrictNarrowing cursor.currentGrant body.childGrant = false) .invalidDelegationChain
  let childGrantId := grantId body.childGrant
  let linkId := delegationId body
  reject (childGrantId ∈ cursor.seenGrants ∨ linkId ∈ cursor.seenDelegations)
    .invalidDelegationChain
  reject (state.isDelegationRevoked linkId) .delegationRevoked
  validateSignature signatures link
  reject (state.isGrantRevoked childGrantId) (if isLeaf then .grantRevoked else .parentGrantRevoked)
  return { currentHolder := body.subject
           currentGrant := body.childGrant
           currentGrantId := childGrantId
           previousContext := context
           previousIssuedAt := body.issuedAt
           lastDelegationId := some linkId
           seenDevices := cursor.seenDevices ++ [body.subject]
           seenGrants := cursor.seenGrants ++ [childGrantId]
           seenDelegations := cursor.seenDelegations ++ [linkId] }

def followLinks : ChainCursor → List SignedDelegation → Except CapabilityDenialReason ChainCursor
  | cursor, [] => .ok cursor
  | cursor, link :: rest => do
    let cursor ← followLink grantId delegationId state signatures request cursor link rest.isEmpty
    followLinks cursor rest

def enterChain (root : CapabilityRoot) : Except CapabilityDenialReason ChainCursor := do
  let context := root.authorizationContext
  reject (contextIsUsable state request context = false) .unrecognizedAuthorizationContext
  validateDeviceStatus (state.deviceStatus root.holder)
  let rootGrants := state.rootGrants root.holder
  reject (rootGrants.length > MAX_CAPABILITIES_PER_DEVICE) .stateViewLimitExceeded
  let rootGrantId := grantId root.grant
  reject ((rootGrants.any fun grant => grantId grant = rootGrantId) = false) .noMatchingGrant
  reject (state.isGrantRevoked rootGrantId) .parentGrantRevoked
  reject (state.heldGrantAt root.holder rootGrantId context = false) .rootGrantNotHeldAtContext
  reject (state.deviceStatusAt root.holder context ≠ .active) .rootHolderNotActiveAtContext
  let rootContextTime ← okOr (state.authorizationContextTimestamp context)
    .rootContextTimestampUnavailable
  reject (grantIsValidAt root.grant context.epoch rootContextTime = false)
    .rootGrantInvalidAtContext
  return { currentHolder := root.holder
           currentGrant := root.grant
           currentGrantId := rootGrantId
           previousContext := context
           previousIssuedAt := rootContextTime
           lastDelegationId := none
           seenDevices := [root.holder]
           seenGrants := [rootGrantId]
           seenDelegations := [] }

def evaluateDelegated (chain : DelegationChain) :
    Except CapabilityDenialReason (CapabilityGrantId × Option DelegationId) := do
  reject (chain.links = [] ∨ chain.links.length > MAX_DELEGATION_DEPTH) .invalidDelegationChain
  let cursor ← enterChain grantId state request chain.root
  let cursor ← followLinks grantId delegationId state signatures request cursor chain.links
  reject (cursor.previousIssuedAt > request.evaluatedAt) .delegationNotYetValid
  reject (cursor.currentHolder ≠ request.deviceId ∨ chain.leafHolder ≠ request.deviceId)
    .invalidDelegationChain
  match grantMismatch cursor.currentGrant request with
  | some reason => .error reason
  | none => return (cursor.currentGrantId, cursor.lastDelegationId)

def evaluateCapability (proof : CapabilityProof) : CapabilityDecision :=
  CapabilityDecision.ofResult request do
    validateCurrentContext state request
    validateDeviceStatus (state.deviceStatus request.deviceId)
    match proof with
    | .direct => evaluateDirect grantId state request
    | .delegated chain => evaluateDelegated grantId delegationId state signatures request chain

/-! ## Narrowing keeps within the parent -/

section
variable {parent child : CapabilityGrant} {request : CapabilityRequest}

lemma pathStartsWith_iff {path start : ResourcePath} :
    pathStartsWith path start = true ↔ start <+: path := by
  simp only [pathStartsWith, Bool.and_eq_true, decide_eq_true_eq, all_eq_true]
  induction start generalizing path with
  | nil => simp
  | cons a start ih =>
    cases path with
    | nil => simp
    | cons b path =>
      simp only [zip_cons_cons, mem_cons, forall_eq_or_imp, length_cons, cons_prefix_cons, ← ih]
      constructor
      · rintro ⟨hlen, hab, hall⟩
        exact ⟨hab.symm, by omega, hall⟩
      · rintro ⟨hab, hlen, hall⟩
        exact ⟨by omega, hab.symm, hall⟩

variable {strict : Bool}

lemma selectorContains_of_narrowing {parent child : ResourceSelector}
    {resource : ResourcePath} (h : resourceNarrowing parent child = some strict)
    (hchil : selectorContains child resource = true) : selectorContains parent resource = true := by
  revert h
  fun_cases resourceNarrowing parent child with
  | case1 parent => exact fun _ => hchil
  | case3 parent child hstar =>
    exact fun _ => pathStartsWith_iff.mpr
      ((pathStartsWith_iff.mp hstar).trans (pathStartsWith_iff.mp hchil))
  | case5 parent child hstar =>
    obtain rfl : child = resource := of_decide_eq_true hchil
    exact fun _ => hstar
  | _ => nofun

def CapabilityConstraint.value : CapabilityConstraint → Nat
  | .accountEpochAtLeast epoch => epoch
  | .accountEpochAtMost epoch => epoch
  | .validFrom time => time

variable {constraint : CapabilityConstraint}

lemma constraintValue_cons {rest : List CapabilityConstraint} {code : Nat} :
    constraintValue (constraint :: rest) code =
      if code = constraint.code then some constraint.value else constraintValue rest code := by
  by_cases h : code = constraint.code
  · cases constraint <;> simp [constraintValue, h, CapabilityConstraint.code, value]
  · cases constraint <;> simp [constraintValue, CapabilityConstraint.code] at h ⊢ <;> simp [h]

variable {constraints : List CapabilityConstraint}

lemma constraintValue_of_mem (hsor : SortedBy code constraints) (h : constraint ∈ constraints) :
    constraintValue constraints constraint.code = some constraint.value := by
  induction constraints with
  | nil => cases h
  | cons first rest ih =>
    obtain ⟨hfir, hrest⟩ := pairwise_cons.mp hsor
    rw [constraintValue_cons]
    rcases mem_cons.mp h with rfl | hmem
    · rw [if_pos rfl]
    · rw [if_neg (hfir constraint hmem).ne', ih hrest hmem]

lemma mem_of_constraintValue {code value : Nat}
    (h : constraintValue constraints code = some value) :
    ∃ constraint ∈ constraints, constraint.code = code ∧ constraint.value = value := by
  induction constraints with
  | nil => cases h
  | cons first rest ih =>
    rw [constraintValue_cons] at h
    split at h
    · rename_i hcode
      exact ⟨first, mem_cons_self, hcode.symm, Option.some.inj h⟩
    · obtain ⟨constraint, hmem, hcode, hval⟩ := ih h
      exact ⟨constraint, mem_cons_of_mem _ hmem, hcode, hval⟩

lemma exists_tighter {parent child : List CapabilityConstraint} (hsor : SortedBy code parent)
    (h : constraintNarrowing parent child = some strict) (hmem : constraint ∈ parent) :
    ∃ tighter ∈ child, tighter.code = constraint.code ∧
      if constraint.code = 2 then tighter.value ≤ constraint.value
      else constraint.value ≤ tighter.value := by
  have hat : ∃ part, constraintNarrowingAt parent child constraint.code = some part := by
    simp only [constraintNarrowing, Option.bind_eq_bind, Option.bind_eq_some_iff] at h
    obtain ⟨first, hfir, second, hsec, third, hthir, -⟩ := h
    cases constraint with
    | accountEpochAtLeast epoch => exact ⟨first, hfir⟩
    | accountEpochAtMost epoch => exact ⟨second, hsec⟩
    | validFrom time => exact ⟨third, hthir⟩
  obtain ⟨part, hpart⟩ := hat
  rw [constraintNarrowingAt, constraintValue_of_mem hsor hmem] at hpart
  cases hval : constraintValue child constraint.code with
  | none => simp [hval] at hpart
  | some value =>
    obtain ⟨tighter, htig, hcode, rfl⟩ := mem_of_constraintValue hval
    refine ⟨tighter, htig, hcode, ?_⟩
    simp only [hval] at hpart
    split at hpart
    · rename_i htwo
      rw [if_pos htwo]
      split at hpart
      · assumption
      · cases hpart
    · rename_i htwo
      rw [if_neg htwo]
      split at hpart
      · assumption
      · cases hpart

lemma constraintsHold_of_narrowing {parent child : List CapabilityConstraint}
    {epoch : Epoch} {time : Timestamp} (hsor : SortedBy code parent)
    (h : constraintNarrowing parent child = some strict)
    (hchil : constraintsHold child epoch time = true) :
    constraintsHold parent epoch time = true := by
  refine all_eq_true.mpr fun constraint hmem => ?_
  obtain ⟨tighter, htig, hcode, hval⟩ := exists_tighter hsor h hmem
  have hhol := all_eq_true.mp hchil tighter htig
  cases constraint <;> cases tighter <;>
    simp [code, value, holds]
      at hcode hval hhol ⊢ <;>
    first | exact hval.trans hhol | exact hhol.trans hval

lemma expiration_of_narrowing {parent child : Option Timestamp}
    {time : Timestamp} (h : expirationNarrowing parent child = some strict)
    (hchil : ∀ expiresAt ∈ child, time < expiresAt) : ∀ expiresAt ∈ parent, time < expiresAt := by
  rintro parent ⟨⟩
  cases child with
  | none => cases h
  | some child =>
    simp only [expirationNarrowing] at h
    split at h
    · rename_i hle
      exact (hchil child rfl).trans_le hle
    · cases h

/-- What the grant has to say about a request that it matches. -/
structure CapabilityGrant.Matches (grant : CapabilityGrant) (request : CapabilityRequest) :
    Prop where
  capabilityNamespace : grant.capabilityNamespace = request.capabilityNamespace
  action : grant.action = request.action
  resource : selectorContains grant.resource request.resource = true
  constraints : constraintsHold grant.constraints request.authorizationContext.epoch
    request.evaluatedAt = true
  unexpired : ∀ expiresAt, grant.expiresAt = some expiresAt → request.evaluatedAt < expiresAt

lemma grantMismatch_eq_none {grant : CapabilityGrant} :
    grantMismatch grant request = none ↔ grant.Matches request := by
  constructor
  · fun_cases grantMismatch grant request with
    | case6 hnam hact hres hcon hexp =>
      intro _
      refine ⟨not_not.mp hnam, not_not.mp hact, by simpa using hres, by simpa using hcon,
        fun expiresAt hsome => ?_⟩
      simpa [hsome] using hexp
    | _ => nofun
  · rintro ⟨hnam, hact, hres, hcon, hexp⟩
    have hany : (grant.expiresAt.any fun expiresAt => decide (request.evaluatedAt ≥ expiresAt)) =
        false := by
      cases hsome : grant.expiresAt with
      | none => rfl
      | some expiresAt => simpa using hexp expiresAt hsome
    simp [grantMismatch, hnam, hact, hres, hcon, hany]

/-- **Attenuation.** Whatever a narrower grant allows, its parent allows. -/
lemma CapabilityGrant.Matches.of_narrowing (h : isStrictNarrowing parent child = true)
    (hchil : child.Matches request) : parent.Matches request := by
  unfold isStrictNarrowing at h
  split at h
  · cases h
  rename_i hnames
  obtain ⟨hnam, hact⟩ := not_or.mp hnames
  split at h
  · rename_i hres hcons hexpir _
    exact ⟨(not_not.mp hnam).trans hchil.capabilityNamespace, (not_not.mp hact).trans hchil.action,
      selectorContains_of_narrowing hres hchil.resource,
      constraintsHold_of_narrowing parent.sorted hcons hchil.constraints,
      expiration_of_narrowing hexpir hchil.unexpired⟩
  · cases h

/-- The number of further links that a grant allows. -/
def DelegationPermission.depth (permission : DelegationPermission) : Nat :=
  match permission with
  | .notDelegable => 0
  | .delegable remaining => remaining.get

lemma depth_lt_of_narrowing (h : isStrictNarrowing parent child = true) :
    child.delegation.depth < parent.delegation.depth := by
  unfold isStrictNarrowing at h
  split at h
  · cases h
  split at h
  on_goal 2 => cases h
  rename_i hper
  cases hpar : parent.delegation with
  | notDelegable => simp [permissionNarrowing, hpar, DelegationPermission.remaining] at hper
  | delegable remaining =>
    cases hchil : child.delegation with
    | notDelegable => exact Nat.pos_of_ne_zero remaining.positive
    | delegable less =>
      simp only [permissionNarrowing, hpar, hchil, DelegationPermission.remaining] at hper
      split at hper
      · assumption
      · cases hper

end

/-! ## Along a chain -/

section

/-- What the evaluation has checked about a link on its own. -/
structure LinkSound (link : SignedDelegation) : Prop where
  grant : state.isGrantRevoked (grantId link.body.childGrant) = false
  delegation : state.isDelegationRevoked (delegationId link.body) = false
  signature : signatures link = .verified
  subject : state.deviceStatus link.body.subject = .active

/-- What a request that is allowed through a chain rests on. -/
structure DelegationChain.Authorizes (chain : DelegationChain) : Prop where
  matches_ : chain.root.grant.Matches request
  installed : ∃ installed ∈ state.rootGrants chain.root.holder,
    grantId installed = grantId chain.root.grant
  rootGrant : state.isGrantRevoked (grantId chain.root.grant) = false
  rootHolder : state.deviceStatus chain.root.holder = .active
  links : ∀ link ∈ chain.links, LinkSound grantId delegationId state signatures link
  holders : (chain.root.holder :: chain.links.map fun link => link.body.subject).Nodup
  depth : chain.links.length ≤ chain.root.grant.delegation.depth

variable {grantId delegationId state signatures request}

lemma validateDeviceStatus_ok {status : CapabilityDeviceStatus} {u : Unit}
    (h : validateDeviceStatus status = .ok u) : status = .active := by
  cases status <;> first | rfl | cases h

variable {link : SignedDelegation} {cursor : ChainCursor}

lemma validateSignature_ok {u : Unit}
    (h : validateSignature signatures link = .ok u) : signatures link = .verified := by
  unfold validateSignature at h
  split at h
  · assumption
  · cases h
  · cases h

lemma followLink_ok {next : ChainCursor} {isLeaf : Bool}
    (h : followLink grantId delegationId state signatures request cursor link isLeaf = .ok next) :
    LinkSound grantId delegationId state signatures link ∧
      isStrictNarrowing cursor.currentGrant link.body.childGrant = true ∧
      link.body.subject ∉ cursor.seenDevices ∧ next.currentGrant = link.body.childGrant ∧
      next.seenDevices = cursor.seenDevices ++ [link.body.subject] := by
  simp only [followLink, bind_ok, reject_ok, okOr_ok, pure_ok] at h
  obtain ⟨-, -, -, -, -, -, time, -, -, -, -, -, -, -, -, -, -, -, -, -, -, hfres, ⟨⟩, hstatus, -,
    hnar, -, -, -, hdel, ⟨⟩, hsig, -, hgrant, rfl⟩ := h
  exact ⟨⟨by simpa using hgrant, by simpa using hdel, validateSignature_ok hsig,
    validateDeviceStatus_ok hstatus⟩, by simpa using hnar, hfres, rfl, rfl⟩

/-- The loop: every link is sound, the holders stay distinct, the last grant is within the first
one, and every link takes from the depth. -/
lemma followLinks_ok {last : ChainCursor} {links : List SignedDelegation}
    (h : followLinks grantId delegationId state signatures request cursor links = .ok last) :
    (∀ link ∈ links, LinkSound grantId delegationId state signatures link) ∧
      (cursor.seenDevices.Nodup →
        (cursor.seenDevices ++ links.map fun link => link.body.subject).Nodup) ∧
      (last.currentGrant.Matches request → cursor.currentGrant.Matches request) ∧
      last.currentGrant.delegation.depth + links.length ≤ cursor.currentGrant.delegation.depth := by
  induction links generalizing cursor with
  | nil =>
    obtain rfl : cursor = last := Except.ok.inj h
    simp
  | cons link rest ih =>
    simp only [followLinks, bind_ok] at h
    obtain ⟨next, hnext, hrest⟩ := h
    obtain ⟨hsoun, hnar, hfres, hgrant, hseen⟩ := followLink_ok hnext
    obtain ⟨hall, hnodup, hmatches, hdepth⟩ := ih hrest
    rw [hgrant] at hmatches hdepth
    rw [hseen] at hnodup
    refine ⟨by simpa [hsoun] using hall, ?_, fun hlast => .of_narrowing hnar (hmatches hlast),
      ?_⟩
    · intro hcursor
      have hpush : (cursor.seenDevices ++ [link.body.subject]).Nodup :=
        nodup_append'.mpr ⟨hcursor, nodup_singleton _, by simpa using hfres⟩
      simpa using hnodup hpush
    · have hlt := depth_lt_of_narrowing hnar
      rw [length_cons]
      omega

lemma enterChain_ok {root : CapabilityRoot}
    (h : enterChain grantId state request root = .ok cursor) :
    state.deviceStatus root.holder = .active ∧
      (∃ installed ∈ state.rootGrants root.holder, grantId installed = grantId root.grant) ∧
      state.isGrantRevoked (grantId root.grant) = false ∧ cursor.currentGrant = root.grant ∧
      cursor.seenDevices = [root.holder] := by
  simp only [enterChain, bind_ok, reject_ok, okOr_ok, pure_ok] at h
  obtain ⟨-, -, ⟨⟩, hstatus, -, -, -, hinstalled, -, hrevoked, -, -, -, -, time, -, -, -, rfl⟩ := h
  exact ⟨validateDeviceStatus_ok hstatus, by simpa using hinstalled, by simpa using hrevoked, rfl,
    rfl⟩

end

/-- Delegation never widens authority: a request that a chain of any length allows
is one that the root grant itself allows, within its depth, through distinct active holders, with
no revoked grant or link and with every signature verified. -/
theorem evaluateCapability_attenuates (grantId : CapabilityGrant → CapabilityGrantId)
    (delegationId : DelegationBody → DelegationId) (state : CapabilityStateView)
    (signatures : SignedDelegation → DelegationSignatureStatus) (request : CapabilityRequest)
    (chain : DelegationChain)
    (h : (evaluateCapability grantId delegationId state signatures request
      (.delegated chain)).isAllowed = true) :
    chain.Authorizes grantId delegationId state signatures request := by
  obtain ⟨result, hresult⟩ : ∃ result,
      evaluateDelegated grantId delegationId state signatures request chain = .ok result := by
    cases heval : evaluateDelegated grantId delegationId state signatures request chain with
    | ok result => exact ⟨result, rfl⟩
    | error reason =>
      cases hcontext : validateCurrentContext state request <;>
        cases hstatus : validateDeviceStatus (state.deviceStatus request.deviceId) <;>
        simp [evaluateCapability, CapabilityDecision.ofResult, CapabilityDecision.isAllowed, bind,
          Except.bind, hcontext, hstatus, heval] at h
  simp only [evaluateDelegated, bind_ok, reject_ok] at hresult
  obtain ⟨-, -, cursor, hcursor, last, hlast, -, -, -, -, hmatch⟩ := hresult
  obtain ⟨hholder, hinstalled, hrevoked, hgrant, hseen⟩ := enterChain_ok hcursor
  obtain ⟨hlinks, hnodup, hattenuates, hdepth⟩ := followLinks_ok hlast
  rw [hgrant] at hattenuates hdepth
  rw [hseen] at hnodup
  have hmatches : last.currentGrant.Matches request := by
    split at hmatch
    · cases hmatch
    · exact grantMismatch_eq_none.mp (by assumption)
  exact ⟨hattenuates hmatches, hinstalled, hrevoked, hholder, hlinks,
    hnodup (nodup_singleton _), by omega⟩

/-! One device lets a second write below a part of its folder, and the second lets a third write one
document there. -/

def repeated (b : Byte) : Digest := ⟨replicate 32 b, length_replicate⟩

def folderGrant : CapabilityGrant :=
  ⟨"documents", "write", .startingWith [[1]], [.accountEpochAtLeast 1],
    .delegable ⟨2, two_ne_zero, Nat.le_of_ble_eq_true rfl⟩, none, [], pairwise_singleton _ _⟩

def partGrant : CapabilityGrant :=
  { folderGrant with
    resource := .startingWith [[1], [2]]
    delegation := .delegable ⟨1, one_ne_zero, Nat.le_of_ble_eq_true rfl⟩ }

def documentGrant : CapabilityGrant :=
  ⟨"documents", "write", .exact [[1], [2], [3]], [.accountEpochAtLeast 1], .notDelegable, some 9,
    [], pairwise_singleton _ _⟩

def folderContext : AuthorizationContext := ⟨⟨.zero 32⟩, 1, ⟨.zero 32⟩⟩

def folderGrantId : CapabilityGrantId := ⟨repeated (.ofNat 256 grant.delegation.depth)⟩

def folderDelegationId (body : DelegationBody) : DelegationId :=
  ⟨repeated (.ofNat 256 body.issuedAt)⟩

def folderView : CapabilityStateView where
  authorizationContext := folderContext
  deviceStatus _ := .active
  rootGrants _ := [folderGrant]
  isGrantRevoked _ := false
  isDelegationRevoked _ := false
  recognizesAuthorizationContext _ := true
  authorizationContextPrecedesOrEquals _ _ := true
  authorizationContextTimestamp _ := some 1
  deviceStatusAt _ _ := .active
  heldGrantAt _ _ _ := true

def documentChain : DelegationChain where
  root := ⟨folderContext, ⟨repeated 0⟩, folderGrant, []⟩
  links :=
    [⟨⟨⟨repeated 2⟩, partGrant, ⟨repeated 0⟩, ⟨repeated 1⟩, folderContext, 2, .zero 16, []⟩, []⟩,
    ⟨⟨⟨repeated 1⟩, documentGrant, ⟨repeated 1⟩, ⟨repeated 2⟩, folderContext, 3, .zero 16, []⟩, []⟩]

def documentRequest : CapabilityRequest :=
  ⟨folderContext, .zero 32, ⟨repeated 2⟩, "documents", "write", [[1], [2], [3]], 4⟩

theorem documentRequest_attenuated :
    (evaluateCapability folderGrantId folderDelegationId folderView (fun _ => .verified)
      documentRequest (.delegated documentChain)).isAllowed = true ∧
    documentChain.Authorizes folderGrantId folderDelegationId folderView (fun _ => .verified)
      documentRequest :=
  ⟨by decide +kernel, evaluateCapability_attenuates _ _ _ _ _ _ (by decide +kernel)⟩

end Krikos.Identity
