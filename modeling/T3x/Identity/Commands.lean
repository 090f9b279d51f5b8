import T3x.Identity.Collaboration

/-!
# One command after another

Each route runs its statements in one transaction. A run is any sequence of commands
by any actors; a command that fails leaves the tables as they were.
-/

namespace T3x.Identity

open Js

/-- A command, with what its request brings: the names for new rows, the time of its
evaluation and the time of the database. -/
inductive Command where
  | memberUpsert (namespaceId : JsString) (principal : Principal) (role : MemberRole)
      (membershipId : JsString) (now : ℤ)
  | memberRevoke (namespaceId membershipId : JsString) (evaluatedAt : ℤ)
  | guestGrant (namespaceId projectId : JsString) (principal : Principal) (role : MemberRole)
      (expiresAt : Option JsString) (grantId : JsString) (evaluatedAt now : ℤ)
  | guestRevoke (namespaceId projectId grantId : JsString) (evaluatedAt : ℤ)
  | ownershipTransfer (namespaceId currentOwnerId targetId : JsString) (evaluatedAt : ℤ)
  | projectTransfer (plan : ProjectTransferPlan)
  | invitationCreate (namespaceId : JsString)
      (projectId recipientUserId recipientEmail : Option JsString) (role : MemberRole)
      (invitationId tokenHash : JsString) (actor : Principal)
      (expiresAt : JsString) (evaluatedAt : ℤ)
  | invitationAccept (namespaceId invitationId actorId : JsString)
      (verifiedEmails : List JsString) (rowId : JsString) (evaluatedAt now : ℤ)
  | invitationRevoke (namespaceId invitationId : JsString) (evaluatedAt : ℤ)
  | invitationDecline (namespaceId invitationId actorId : JsString)
      (verifiedEmails : List JsString) (evaluatedAt : ℤ)

/-! ## The transactions -/

/-- Add or update a namespace member. -/
def upsertMember (s : Collaboration) (namespaceId : JsString) (principal : Principal)
    (role : MemberRole) (membershipId : JsString) (now : ℤ) :
    Except CollaborationError Collaboration := do
  lockNamespace s namespaceId
  let memberships ← s.memberships.upsert namespaceId principal role membershipId now
  return { s with memberships := memberships }

/-- Revoke a namespace member while preserving the last owner. -/
def revokeMember (s : Collaboration) (namespaceId membershipId : JsString) (evaluatedAt : ℤ) :
    Except CollaborationError Collaboration := do
  lockNamespace s namespaceId
  match s.memberships.find namespaceId membershipId with
  | none => throw (.notFound (js "Membership not found"))
  | some member =>
    if member.status ≠ .active then return s
    assertOwnerMutationAllowed member (s.memberships.countActiveHumanOwners namespaceId)
    return { s with memberships := s.memberships.revoke membershipId evaluatedAt }

/-- Atomically transfer namespace ownership to an active human member. -/
def transferOwnership (s : Collaboration) (namespaceId currentOwnerId targetId : JsString)
    (evaluatedAt : ℤ) : Except CollaborationError Collaboration := do
  lockNamespace s namespaceId
  match s.memberships.find namespaceId currentOwnerId, s.memberships.find namespaceId targetId with
  | some currentOwner, some target =>
    let plan ← buildNamespaceOwnershipTransferPlan namespaceId currentOwner target
    let memberships ← s.memberships.applyOwnershipTransfer plan evaluatedAt
    return { s with memberships := memberships }
  | _, _ => throw (.notFound (js "Membership not found"))

/-- Revoke one exact project-scoped guest. -/
def revokeGuest (s : Collaboration) (namespaceId projectId grantId : JsString) (evaluatedAt : ℤ) :
    Except CollaborationError Collaboration := do
  lockNamespace s namespaceId
  match s.grants.find? fun row =>
      row.namespaceId = namespaceId ∧ row.projectId = projectId ∧ row.grantId = grantId with
  | none => throw (.notFound (js "Project grant not found"))
  | some guest =>
    if guest.status ≠ .active then return s
    return revokeProjectGrant s grantId evaluatedAt

/-- The invitation that a command is about, if it still is one to the namespace that
the request has read. -/
def lockedInvitation (s : Collaboration) (namespaceId invitationId : JsString) :
    Except CollaborationError Invitation := do
  lockNamespace s namespaceId
  match findInvitation s invitationId with
  | none => throw (.notFound (js "Invitation not found"))
  | some invitation =>
    if invitation.namespaceId ≠ namespaceId then throw (.notFound (js "Invitation not found"))
    return invitation

/-- Revoke one invitation through its stored target authority. -/
def revokeStoredInvitation (s : Collaboration) (namespaceId invitationId : JsString)
    (evaluatedAt : ℤ) : Except CollaborationError Collaboration := do
  let current ← lockedInvitation s namespaceId invitationId
  match current.status with
  | .revoked _ => return s
  | _ => revokeInvitation s invitationId evaluatedAt

section Transactions

variable (timestamp : JsString → Option ℤ) (toLowerCase : JsString → JsString)

/-- Grant or update project-scoped guest access. -/
def upsertGuest (s : Collaboration) (namespaceId projectId : JsString) (principal : Principal)
    (role : MemberRole) (expiresAt : Option JsString) (grantId : JsString)
    (evaluatedAt now : ℤ) : Except CollaborationError Collaboration := do
  assertProjectGrantExpiry timestamp expiresAt evaluatedAt
  lockNamespace s namespaceId
  upsertProjectGrant timestamp s namespaceId projectId principal role expiresAt grantId now

/-- Create a recipient-bound invitation. -/
def inviteRecipient (s : Collaboration) (namespaceId : JsString)
    (projectId recipientUserId recipientEmail : Option JsString) (role : MemberRole)
    (invitationId tokenHash : JsString) (actor : Principal) (expiresAt : JsString)
    (evaluatedAt : ℤ) : Except CollaborationError Collaboration := do
  assertInvitationExpiry timestamp expiresAt evaluatedAt
  lockNamespace s namespaceId
  let expires ← instant timestamp expiresAt (js "expiresAt")
  createInvitation toLowerCase s
    { invitationId := invitationId
      namespaceId := namespaceId
      projectId := projectId
      recipientUserId := recipientUserId
      recipientEmail := recipientEmail.map (normalizedEmail toLowerCase)
      role := role
      tokenHash := tokenHash
      status := .pending
      createdBy := actor
      createdAt := evaluatedAt
      updatedAt := evaluatedAt
      expiresAt := expires }

/-- The invitation that an actor may accept. -/
def acceptableInvitation (s : Collaboration) (namespaceId invitationId actorId : JsString)
    (verifiedEmails : List JsString) (evaluatedAt : ℤ) : Except CollaborationError Invitation := do
  let invitation ← lockedInvitation s namespaceId invitationId
  assertInvitationMayBeAccepted toLowerCase invitation actorId verifiedEmails evaluatedAt
  return invitation

/-- The authority that an invitation gives is written. -/
def materialize (s : Collaboration) (invitation : Invitation) (actorId rowId : JsString) (now : ℤ) :
    Except CollaborationError Collaboration :=
  match invitation.targetProject with
  | none => do
    let memberships ← s.memberships.upsert invitation.namespaceId ⟨.human, actorId⟩
      invitation.role rowId now
    return { s with memberships := memberships }
  | some projectId =>
    upsertProjectGrant timestamp s invitation.namespaceId projectId ⟨.human, actorId⟩
      invitation.role none rowId now

/-- `acceptStoredInvitation(db, firstRead, actor)`. -/
def acceptStoredInvitation (s : Collaboration) (namespaceId invitationId actorId : JsString)
    (verifiedEmails : List JsString) (rowId : JsString) (evaluatedAt now : ℤ) :
    Except CollaborationError Collaboration := do
  let invitation ←
    acceptableInvitation toLowerCase s namespaceId invitationId actorId verifiedEmails evaluatedAt
  let materialized ← materialize timestamp s invitation actorId rowId now
  acceptInvitation materialized invitation.invitationId actorId evaluatedAt

/-- Decline an inbox invitation as its recipient. -/
def declineInvitation (s : Collaboration) (namespaceId invitationId actorId : JsString)
    (verifiedEmails : List JsString) (evaluatedAt : ℤ) :
    Except CollaborationError Collaboration := do
  let _ ←
    acceptableInvitation toLowerCase s namespaceId invitationId actorId verifiedEmails evaluatedAt
  revokeInvitation s invitationId evaluatedAt

/-! ## Runs -/

/-- The tables after a command that succeeds. -/
def execute (s : Collaboration) : Command → Except CollaborationError Collaboration
  | .memberUpsert namespaceId principal role membershipId now =>
    upsertMember s namespaceId principal role membershipId now
  | .memberRevoke namespaceId membershipId evaluatedAt =>
    revokeMember s namespaceId membershipId evaluatedAt
  | .guestGrant namespaceId projectId principal role expiresAt grantId evaluatedAt now =>
    upsertGuest timestamp s namespaceId projectId principal role expiresAt grantId evaluatedAt now
  | .guestRevoke namespaceId projectId grantId evaluatedAt =>
    revokeGuest s namespaceId projectId grantId evaluatedAt
  | .ownershipTransfer namespaceId currentOwnerId targetId evaluatedAt =>
    transferOwnership s namespaceId currentOwnerId targetId evaluatedAt
  | .projectTransfer plan => do applyProjectTransfer s (← buildProjectTransferPlan plan)
  | .invitationCreate namespaceId projectId recipientUserId recipientEmail role invitationId
      tokenHash actor expiresAt evaluatedAt =>
    inviteRecipient timestamp toLowerCase s namespaceId projectId recipientUserId recipientEmail
      role invitationId tokenHash actor expiresAt evaluatedAt
  | .invitationAccept namespaceId invitationId actorId verifiedEmails rowId evaluatedAt now =>
    acceptStoredInvitation timestamp toLowerCase s namespaceId invitationId actorId
      verifiedEmails rowId evaluatedAt now
  | .invitationRevoke namespaceId invitationId evaluatedAt =>
    revokeStoredInvitation s namespaceId invitationId evaluatedAt
  | .invitationDecline namespaceId invitationId actorId verifiedEmails evaluatedAt =>
    declineInvitation toLowerCase s namespaceId invitationId actorId verifiedEmails evaluatedAt

/-- The tables after a command: a transaction that fails is rolled back. -/
def settle (s : Collaboration) (command : Command) : Collaboration :=
  match execute timestamp toLowerCase s command with
  | .ok next => next
  | .error _ => s

end Transactions

end T3x.Identity
