import T3x.Identity.Authorization
import T3x.Js.Shape

/-!
# The rules of collaboration

What a command checks before it writes: an expiry lies ahead, the last owner of a
namespace stays, ownership passes between two active people, and an invitation is
accepted by the one that it was made for. Clock times are milliseconds.
-/

namespace T3x.Identity

open Js

/-! ## Failures -/

/-- `CollaborationInvariantErrorCode`. -/
inductive InvariantCode where
  | invalidExpiry
  | invitationExpired
  | invitationInactive
  | invitationRecipientMismatch
  | lastOwnerRequired
  | namespaceMismatch
  | sameNamespace
  | sameOwner
  | currentOwnerIneligible
  | targetOwnerIneligible
  deriving DecidableEq

/-- `CollaborationStorageErrorCode`. -/
inductive StorageCode where
  | invalidTimestamp
  | invitationStateConflict
  | namespaceNotFound
  | ownershipTransferConflict
  | projectTransferBlocked
  | projectTransferConflict
  deriving DecidableEq

/-- Why a command fails: a rule, the store, a row that is missing, or a constraint of
the database. -/
inductive CollaborationError where
  | invariant (code : InvariantCode) (message : JsString)
  | storage (code : StorageCode) (message : JsString)
  | notFound (message : JsString)
  | constraint
  deriving DecidableEq

/-! ## Invitations -/

/-- `CollaborationInvitationStatus`, each with what the row records about it. -/
inductive InvitationStatus where
  | pending
  | accepted (acceptedAt : ℤ) (acceptedByUserId : JsString)
  | revoked (revokedAt : ℤ)
  | expired (expiredAt : ℤ)
  deriving DecidableEq

/-- A row of `collaboration_invitations`. -/
structure Invitation where
  /-- The name of the row. -/
  invitationId : JsString
  /-- The namespace. -/
  namespaceId : JsString
  /-- The project, for an invitation to one. -/
  projectId : Option JsString
  /-- The user that it is for. -/
  recipientUserId : Option JsString
  /-- The address that it is for. -/
  recipientEmail : Option JsString
  /-- The role that it gives. -/
  role : MemberRole
  /-- The hash of its token. -/
  tokenHash : JsString
  /-- The status. -/
  status : InvitationStatus
  /-- Who made it. -/
  createdBy : Principal
  /-- When the row was written first. -/
  createdAt : ℤ
  /-- When the row was written last. -/
  updatedAt : ℤ
  /-- When it expires. -/
  expiresAt : ℤ
  deriving DecidableEq

/-- The project of an invitation to one; the others are to the namespace. -/
def Invitation.targetProject (invitation : Invitation) : Option JsString :=
  invitation.projectId.filter fun projectId => !projectId.isEmpty

/-! ## Checks -/

section Checks

variable (timestamp : JsString → Option ℤ) (toLowerCase : JsString → JsString)

/-- `normalizedEmail(value)`. -/
def normalizedEmail (value : JsString) : JsString := toLowerCase (trim value)

/-- Whether a text is a time after another. -/
def isAfter (expiresAt : JsString) (evaluatedAt : ℤ) : Bool :=
  (timestamp expiresAt).any fun expiresAt => decide (evaluatedAt < expiresAt)

/-- `assertProjectGrantExpiry(input)`. -/
def assertProjectGrantExpiry (expiresAt : Option JsString) (evaluatedAt : ℤ) :
    Except CollaborationError Unit :=
  match expiresAt with
  | none => .ok ()
  | some expiresAt =>
    if isAfter timestamp expiresAt evaluatedAt then .ok ()
    else .error (.invariant .invalidExpiry
      (js "Project grant expiry must be a valid timestamp after the server evaluation time"))

/-- `assertInvitationExpiry(input)`. -/
def assertInvitationExpiry (expiresAt : JsString) (evaluatedAt : ℤ) :
    Except CollaborationError Unit :=
  if isAfter timestamp expiresAt evaluatedAt then .ok ()
  else .error (.invariant .invalidExpiry
    (js "Invitation expiry must be a valid timestamp after the server evaluation time"))

/-- `assertInvitationMayBeAccepted(input)`. -/
def assertInvitationMayBeAccepted (invitation : Invitation) (actorId : JsString)
    (verifiedEmails : List JsString) (evaluatedAt : ℤ) : Except CollaborationError Unit :=
  if invitation.status ≠ .pending then
    .error (.invariant .invitationInactive (js "Only a pending invitation may be accepted"))
  else if invitation.expiresAt ≤ evaluatedAt then
    .error (.invariant .invitationExpired (js "Invitation has expired"))
  else if (∃ userId ∈ invitation.recipientUserId, userId ≠ actorId) ∨
      (∃ email ∈ invitation.recipientEmail,
        normalizedEmail toLowerCase email ∉ verifiedEmails.map (normalizedEmail toLowerCase)) ∨
      (invitation.recipientUserId = none ∧ invitation.recipientEmail = none) then
    .error (.invariant .invitationRecipientMismatch
      (js "Invitation recipient does not match the authenticated user"))
  else .ok ()

end Checks

/-- An active owner who is a person. -/
def Membership.isActiveHumanOwner (membership : Membership) : Bool :=
  membership.status = .active ∧ membership.role = .owner ∧ membership.principal.kind = .human

/-- `assertOwnerMutationAllowed(input)`. -/
def assertOwnerMutationAllowed (target : Membership) (activeHumanOwnerCount : ℕ) :
    Except CollaborationError Unit :=
  if target.isActiveHumanOwner ∧ activeHumanOwnerCount ≤ 1 then
    .error (.invariant .lastOwnerRequired
      (js "A namespace must retain at least one active human owner"))
  else .ok ()

/-! ## Plans -/

/-- `NamespaceOwnershipTransferPlan`. -/
structure OwnershipTransferPlan where
  /-- The namespace. -/
  namespaceId : JsString
  /-- The membership that becomes an admin's. -/
  demote : JsString
  /-- The membership that becomes an owner's. -/
  promote : JsString

/-- `buildNamespaceOwnershipTransferPlan(input)`. -/
def buildNamespaceOwnershipTransferPlan (namespaceId : JsString)
    (currentOwner target : Membership) : Except CollaborationError OwnershipTransferPlan :=
  if currentOwner.namespaceId ≠ namespaceId ∨ target.namespaceId ≠ namespaceId then
    .error (.invariant .namespaceMismatch
      (js "Ownership transfer memberships must belong to the same namespace"))
  else if currentOwner.membershipId = target.membershipId then
    .error (.invariant .sameOwner
      (js "Ownership transfer requires a different target membership"))
  else if currentOwner.isActiveHumanOwner = false then
    .error (.invariant .currentOwnerIneligible
      (js "Current owner must be an active human owner"))
  else if target.status ≠ .active ∨ target.role = .owner ∨ target.principal.kind ≠ .human then
    .error (.invariant .targetOwnerIneligible
      (js "Target owner must be a different active human non-owner member"))
  else .ok ⟨namespaceId, currentOwner.membershipId, target.membershipId⟩

/-- `ProjectTransferPlan`. -/
structure ProjectTransferPlan where
  /-- The project. -/
  projectId : JsString
  /-- The namespace that it is in. -/
  sourceNamespaceId : JsString
  /-- The namespace that it goes to. -/
  targetNamespaceId : JsString

/-- `buildProjectTransferPlan(input)`. -/
def buildProjectTransferPlan (plan : ProjectTransferPlan) :
    Except CollaborationError ProjectTransferPlan :=
  if plan.sourceNamespaceId = plan.targetNamespaceId then
    .error (.invariant .sameNamespace
      (js "Project transfer requires a different target namespace"))
  else .ok plan

end T3x.Identity
