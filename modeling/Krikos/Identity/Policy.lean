import Krikos.Identity.Types

/-!
# Identity.Policy

The control, recovery and provider policies of an account, and the checks that the controllers of
the account are able to meet them. The identifier of a controller is derived outside of this
module: the functions take the derivation as `idOf`.
-/

namespace Krikos.Identity

open Lib

/-! ## Policies -/

/-- The controllers that a rule counts; both explicit sets are sorted. -/
inductive ControllerSelector where
  | anyActive
  | controllerIds (identifiers : List ControllerId)
  | controllerClasses (classes : List ControllerClass)
  deriving DecidableEq

structure ProviderFreshness where
  required : Nat
  maximumAge : DurationMillis
  deriving DecidableEq

inductive FreshnessRequirement where
  | latestKnown
  | providerQuorum (requirement : ProviderFreshness)
  deriving DecidableEq

structure PolicyRule where
  operation : OperationKind
  requiredWeight : Nat
  eligibleControllers : ControllerSelector
  freshness : FreshnessRequirement
  delay : Option DurationMillis
  extensions : Extensions
  deriving DecidableEq

/-- The rules are sorted by operation; an operation without a rule is denied. -/
structure ControlPolicy where
  rules : List PolicyRule
  extensions : Extensions
  deriving DecidableEq

structure ReplicatedProviderPolicy where
  providers : List ProviderDescriptor
  sufficientThreshold : Nat
  preferredReplication : Nat
  maximumEvidenceAge : DurationMillis
  deriving DecidableEq

inductive ProviderMode where
  | localOnly
  | replicated (policy : ReplicatedProviderPolicy)
  deriving DecidableEq

structure ProviderPolicy where
  policyVersion : Nat
  mode : ProviderMode
  extensions : Extensions
  deriving DecidableEq

structure ControllerThreshold where
  selector : ControllerSelector
  requiredWeight : Nat
  deriving DecidableEq

structure GuardianThreshold where
  guardianSetRoot : Digest
  guardianCount : Nat
  totalWeight : Nat
  requiredWeight : Nat
  deriving DecidableEq

inductive RecoveryAuthority where
  | controllerThreshold (threshold : ControllerThreshold)
  | guardianThreshold (threshold : GuardianThreshold)
  deriving DecidableEq

structure RecoveryPolicy where
  policyVersion : Nat
  authority : RecoveryAuthority
  delay : DurationMillis
  lifetime : DurationMillis
  extensions : Extensions
  deriving DecidableEq

def ControlPolicy.ruleFor (policy : ControlPolicy) (operation : OperationKind) :
    Option PolicyRule :=
  lookup (fun rule => rule.operation.code) operation.code policy.rules

/-! ## Satisfiability -/

section
variable (idOf : ControllerDescriptor → ControllerId)

def ControllerSelector.matchesController (selector : ControllerSelector)
    (descriptor : ControllerDescriptor) : Bool :=
  match selector with
  | .anyActive => true
  | .controllerIds identifiers => (lookup id (idOf descriptor) identifiers).isSome
  | .controllerClasses classes =>
    (lookup ControllerClass.code descriptor.class_.code classes).isSome

def ControllerSelector.explicitIds : ControllerSelector → Option (List ControllerId)
  | .controllerIds identifiers => some identifiers
  | .anyActive => none
  | .controllerClasses _ => none

def validateNonemptyBoundedSet (resource : String) (length maximum : Nat) :
    Except IdentityError Unit := do
  reject (length = 0) (.emptyCollection resource)
  reject (length > maximum) (.limitExceeded resource length maximum)

/-- One controller against the later ones of `validate_active_controllers`. -/
def validateApart (controller : ControllerDescriptor) :
    List ControllerDescriptor → Except IdentityError Unit
  | [] => .ok ()
  | other :: rest => do
    reject (controller.signingKey = other.signingKey) .duplicateSigningKey
    reject (idOf controller = idOf other) (.duplicateElement "active controller identifiers")
    validateApart controller rest

def validatePairwiseApart : List ControllerDescriptor → Except IdentityError Unit
  | [] => .ok ()
  | controller :: rest => do
    validateApart idOf controller rest
    validatePairwiseApart rest

def validateActiveControllers (controllers : List ControllerDescriptor) :
    Except IdentityError Unit := do
  validateNonemptyBoundedSet "active controllers" controllers.length MAX_CONTROLLERS
  validatePairwiseApart idOf controllers

def validateExplicitControllerReferences (selector : ControllerSelector)
    (controllers : List ControllerDescriptor) : Except IdentityError Unit :=
  match selector.explicitIds with
  | none => .ok ()
  | some identifiers =>
    reject (identifiers.any fun identifier => !controllers.any fun controller =>
        idOf controller = identifier)
      (.invalidRelationship "controller selector active membership")

def eligibleWeight (selector : ControllerSelector) (operation : OperationKind) :
    List ControllerDescriptor → Nat → Except IdentityError Nat
  | [], total => .ok total
  | controller :: rest, total =>
    if selector.matchesController idOf controller && controller.scope.allows operation then do
      let total ← checkedAdd total controller.weight "eligible controller weight"
      eligibleWeight selector operation rest total
    else eligibleWeight selector operation rest total

/-- Recovery is authorized by the recovery policy: the control rules of these three operations are
only a gate with freshness and delay, and their weights are never compared with anything. -/
def OperationKind.isRecoveryGate : OperationKind → Bool
  | .beginRecovery => true
  | .cancelRecovery => true
  | .finalizeRecovery => true
  | _ => false

def PolicyRule.validateSatisfiable (controllers : List ControllerDescriptor) (rule : PolicyRule) :
    Except IdentityError Unit :=
  if rule.operation.isRecoveryGate then .ok ()
  else do
    validateExplicitControllerReferences idOf rule.eligibleControllers controllers
    let total ← eligibleWeight idOf rule.eligibleControllers rule.operation controllers 0
    reject (rule.requiredWeight > total) .unsatisfiableThreshold

def validateRules (controllers : List ControllerDescriptor) :
    List PolicyRule → Except IdentityError Unit
  | [] => .ok ()
  | rule :: rest => do
    rule.validateSatisfiable idOf controllers
    validateRules controllers rest

def ControlPolicy.validateSatisfiable (policy : ControlPolicy)
    (controllers : List ControllerDescriptor) : Except IdentityError Unit := do
  validateActiveControllers idOf controllers
  validateRules idOf controllers policy.rules

def ControllerThreshold.validateFor (threshold : ControllerThreshold)
    (controllers : List ControllerDescriptor) (operation : OperationKind) :
    Except IdentityError Unit := do
  let total ← eligibleWeight idOf threshold.selector operation controllers 0
  reject (threshold.requiredWeight > total) .unsatisfiableThreshold

def ControllerThreshold.validateSatisfiable (threshold : ControllerThreshold)
    (controllers : List ControllerDescriptor) : Except IdentityError Unit := do
  validateActiveControllers idOf controllers
  validateExplicitControllerReferences idOf threshold.selector controllers
  threshold.validateFor idOf controllers .beginRecovery
  threshold.validateFor idOf controllers .cancelRecovery

def RecoveryPolicy.validateControllerAuthority (policy : RecoveryPolicy)
    (controllers : List ControllerDescriptor) : Except IdentityError Unit :=
  match policy.authority with
  | .controllerThreshold threshold => threshold.validateSatisfiable idOf controllers
  | .guardianThreshold _ => .ok ()

/-! ## What satisfiability means -/

def availableWeight (selector : ControllerSelector) (operation : OperationKind)
    (controllers : List ControllerDescriptor) : Nat :=
  ((controllers.filter fun controller =>
    selector.matchesController idOf controller && controller.scope.allows operation).map
      ControllerDescriptor.weight).sum

/-- The controllers can meet every rule of the policy that is decided by controller weight. -/
def ControlPolicy.Satisfiable (policy : ControlPolicy) (controllers : List ControllerDescriptor) :
    Prop :=
  ∀ rule ∈ policy.rules, rule.operation.isRecoveryGate = false →
    rule.requiredWeight ≤
      availableWeight idOf rule.eligibleControllers rule.operation controllers

def RecoveryPolicy.Satisfiable (policy : RecoveryPolicy)
    (controllers : List ControllerDescriptor) : Prop :=
  ∀ threshold, policy.authority = .controllerThreshold threshold →
    threshold.requiredWeight ≤
        availableWeight idOf threshold.selector .beginRecovery controllers ∧
      threshold.requiredWeight ≤
        availableWeight idOf threshold.selector .cancelRecovery controllers

variable {idOf} {controllers others : List ControllerDescriptor} {selector : ControllerSelector}
  {operation : OperationKind} {policy : RecoveryPolicy}

lemma eligibleWeight_ok {total result : Nat}
    (h : eligibleWeight idOf selector operation controllers total = .ok result) :
    result = total + availableWeight idOf selector operation controllers := by
  induction controllers generalizing total with
  | nil =>
    obtain rfl : total = result := by simpa [eligibleWeight] using h
    simp [availableWeight]
  | cons controller rest ih =>
    simp only [eligibleWeight] at h
    split at h
    · rename_i helig
      obtain ⟨next, hnext, h⟩ := bind_ok.mp h
      rw [ih h, checkedAdd_ok hnext]
      simp [availableWeight, helig]
      omega
    · rename_i helig
      rw [ih h]
      simp [availableWeight, helig]

lemma availableWeight_mono (h : controllers.Sublist others) :
    availableWeight idOf selector operation controllers ≤
      availableWeight idOf selector operation others :=
  ((h.filter _).map _).sum_le_sum fun _ _ => Nat.zero_le _

lemma PolicyRule.validateSatisfiable_ok {rule : PolicyRule}
    (h : rule.validateSatisfiable idOf controllers = .ok ())
    (hgate : rule.operation.isRecoveryGate = false) : rule.requiredWeight ≤
      availableWeight idOf rule.eligibleControllers rule.operation controllers := by
  unfold PolicyRule.validateSatisfiable at h
  rw [if_neg (by simp [hgate])] at h
  simp only [bind_ok, reject_ok] at h
  obtain ⟨-, -, total, htot, hle⟩ := h
  rw [eligibleWeight_ok htot] at hle
  omega

lemma validateRules_ok {rules : List PolicyRule}
    (h : validateRules idOf controllers rules = .ok ()) :
    ∀ rule ∈ rules, rule.validateSatisfiable idOf controllers = .ok () := by
  induction rules with
  | nil => simp
  | cons rule rest ih =>
    simp only [validateRules, bind_ok] at h
    obtain ⟨⟨⟩, hrule, hrest⟩ := h
    simp only [List.mem_cons, forall_eq_or_imp]
    exact ⟨hrule, ih hrest⟩

lemma ControlPolicy.satisfiable_of_validate {policy : ControlPolicy}
    (h : policy.validateSatisfiable idOf controllers = .ok ()) :
    policy.Satisfiable idOf controllers := by
  intro rule hrule hgate
  obtain ⟨-, -, hrul⟩ := bind_ok.mp h
  exact PolicyRule.validateSatisfiable_ok (validateRules_ok hrul rule hrule) hgate

lemma ControllerThreshold.validateFor_ok {threshold : ControllerThreshold}
    (h : threshold.validateFor idOf controllers operation = .ok ()) :
    threshold.requiredWeight ≤ availableWeight idOf threshold.selector operation controllers := by
  simp only [ControllerThreshold.validateFor, bind_ok, reject_ok] at h
  obtain ⟨total, htot, hle⟩ := h
  rw [eligibleWeight_ok htot] at hle
  omega

lemma RecoveryPolicy.satisfiable_of_validate
    (h : policy.validateControllerAuthority idOf controllers = .ok ()) :
    policy.Satisfiable idOf controllers := by
  intro threshold haut
  simp only [RecoveryPolicy.validateControllerAuthority, haut,
    ControllerThreshold.validateSatisfiable, bind_ok] at h
  obtain ⟨-, -, -, -, ⟨⟩, hbeg, hcan⟩ := h
  exact ⟨ControllerThreshold.validateFor_ok hbeg, ControllerThreshold.validateFor_ok hcan⟩

lemma ControlPolicy.Satisfiable.mono {policy : ControlPolicy}
    (h : policy.Satisfiable idOf controllers) (hsub : controllers.Sublist others) :
    policy.Satisfiable idOf others :=
  fun rule hrule hgate => (h rule hrule hgate).trans (availableWeight_mono hsub)

lemma RecoveryPolicy.Satisfiable.mono (h : policy.Satisfiable idOf controllers)
    (hsub : controllers.Sublist others) : policy.Satisfiable idOf others :=
  fun threshold haut =>
    ⟨(h threshold haut).1.trans (availableWeight_mono hsub),
      (h threshold haut).2.trans (availableWeight_mono hsub)⟩

end
end Krikos.Identity
