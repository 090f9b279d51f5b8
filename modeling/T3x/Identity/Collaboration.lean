import T3x.Identity.Lifecycle
import T3x.Table

/-!
# The commands of collaboration

Members, guests, invitations and projects are rows of tables, and every command is
one transaction on them: it locks its namespace, checks its rules and writes, or it
fails and leaves the tables as they were. What a request reads before its
transaction, such as the namespace of an invitation or the membership of an owner,
arrives with the command and may be out of date by then; so may the answer to whether
its actor may make it, and a command here has any actor.
-/

namespace T3x.Identity

open Js

/-! ## Tables -/

/-- What is unique about a membership besides its name. -/
def Membership.place (membership : Membership) : JsString × Principal :=
  (membership.namespaceId, membership.principal)

/-- The table `namespace_memberships` with its unique indexes and its check on owners. -/
structure Memberships where
  /-- The rows. -/
  rows : List Membership
  /-- The names are unique. -/
  ids : Table.Unique Membership.membershipId rows
  /-- A principal has one membership in a namespace. -/
  places : Table.Unique Membership.place rows
  /-- Owners are people. -/
  owners : ∀ row ∈ rows, row.role = .owner → row.principal.kind = .human

/-- A row of `project_grants`. -/
structure ProjectGrant where
  /-- The name of the row. -/
  grantId : JsString
  /-- The project. -/
  projectId : JsString
  /-- The namespace of the project. -/
  namespaceId : JsString
  /-- Whose grant it is. -/
  principal : Principal
  /-- The role. -/
  role : MemberRole
  /-- The status. -/
  status : MembershipStatus
  /-- When the row was written first. -/
  createdAt : ℤ
  /-- When the row was written last. -/
  updatedAt : ℤ
  /-- When it expires. -/
  expiresAt : Option ℤ
  deriving DecidableEq

/-- What is unique about a grant besides its name. -/
def ProjectGrant.place (grant : ProjectGrant) : JsString × Principal :=
  (grant.projectId, grant.principal)

/-- The projects and namespaces, and what the commands keep about them. -/
structure Collaboration where
  /-- The names of the users. -/
  users : List JsString
  /-- The names of the namespaces. -/
  namespaces : List JsString
  /-- The projects, each with its namespace. -/
  projects : List (JsString × JsString)
  /-- The members. -/
  memberships : Memberships
  /-- The guests. -/
  grants : List ProjectGrant
  /-- The invitations. -/
  invitations : List Invitation

/-! ## Statements -/

/-- `lockNamespace(namespaceId)`. -/
def lockNamespace (s : Collaboration) (namespaceId : JsString) : Except CollaborationError Unit :=
  if namespaceId ∈ s.namespaces then .ok ()
  else .error (.storage .namespaceNotFound
    (js "Namespace " ++ namespaceId ++ js " does not exist"))

/-- `findNamespaceMembershipForUpdate(input)`. -/
def Memberships.find (members : Memberships) (namespaceId membershipId : JsString) :
    Option Membership :=
  members.rows.find? fun row => row.namespaceId = namespaceId ∧ row.membershipId = membershipId

/-- `findNamespaceMembershipForPrincipal(input)`. -/
def Memberships.findForPrincipal (members : Memberships) (namespaceId : JsString)
    (principal : Principal) : Option Membership :=
  members.rows.find? fun row => row.place = (namespaceId, principal)

/-- Whether a row is that of an active human owner of the namespace. -/
def Membership.owns (namespaceId : JsString) (row : Membership) : Bool :=
  row.namespaceId = namespaceId ∧ row.isActiveHumanOwner

/-- `countActiveHumanOwnersForUpdate(namespaceId)`. -/
def Memberships.countActiveHumanOwners (members : Memberships) (namespaceId : JsString) : ℕ :=
  members.rows.countP (Membership.owns namespaceId)

/-- The membership that an upsert writes over one. -/
def Membership.regranted (role : MemberRole) (now : ℤ) (row : Membership) : Membership :=
  { row with role := .member role, status := .active, updatedAt := now }

/-- Add the row of a member who is no owner. -/
def Memberships.insert (members : Memberships) (row : Membership)
    (hplace : Table.hasKey Membership.place row.place members.rows = false)
    (hid : Table.hasKey Membership.membershipId row.membershipId members.rows = false)
    (hrole : row.role ≠ .owner) : Memberships :=
  { rows := members.rows ++ [row]
    ids := members.ids.append (Table.hasKey_eq_false_iff.mp hid)
    places := members.places.append (Table.hasKey_eq_false_iff.mp hplace)
    owners := by
      intro old hold howner
      rcases List.mem_append.mp hold with hold | hold
      · exact members.owners old hold howner
      · rw [List.mem_singleton.mp hold] at howner
        exact absurd howner hrole }

/-- Write over the row of a principal in a namespace. -/
def Memberships.regrant (members : Memberships) (place : JsString × Principal)
    (role : MemberRole) (now : ℤ) : Memberships :=
  { rows := Table.update (fun row => row.place = place) (Membership.regranted role now)
      members.rows
    ids := members.ids.update fun _ _ => rfl
    places := members.places.update fun _ _ => rfl
    owners := by
      intro row hrow howner
      obtain ⟨old, hold, rfl⟩ := Table.mem_update.mp hrow
      split at howner
      · cases howner
      · rename_i hcond
        rw [if_neg hcond]
        exact members.owners old hold howner }

/-- `upsertNamespaceMembership(input)`, with the name for a new row and the time. -/
def Memberships.upsert (members : Memberships) (namespaceId : JsString) (principal : Principal)
    (role : MemberRole) (membershipId : JsString) (now : ℤ) :
    Except CollaborationError Memberships :=
  let row : Membership := ⟨membershipId, namespaceId, principal, .member role, .active, now, now⟩
  if hplace : Table.hasKey Membership.place row.place members.rows = false then
    if hid : Table.hasKey Membership.membershipId row.membershipId members.rows = false then
      .ok (members.insert row hplace hid (by rintro ⟨⟩))
    else .error .constraint
  else .ok (members.regrant row.place role now)

/-- `revokeNamespaceMembership(membershipId, revokedAt)`. -/
def Memberships.revoke (members : Memberships) (membershipId : JsString) (revokedAt : ℤ) :
    Memberships :=
  { rows := Table.update (fun row => row.membershipId = membershipId ∧ row.status = .active)
      (fun row => { row with status := .revoked revokedAt, updatedAt := revokedAt }) members.rows
    ids := members.ids.update fun _ _ => rfl
    places := members.places.update fun _ _ => rfl
    owners := by
      intro row hrow howner
      obtain ⟨old, hold, rfl⟩ := Table.mem_update.mp hrow
      split at howner <;> split <;> exact members.owners old hold howner }

/-- Whether a transfer rewrites the row. -/
def OwnershipTransferPlan.selects (plan : OwnershipTransferPlan) (row : Membership) : Bool :=
  row.namespaceId = plan.namespaceId ∧ row.status = .active ∧ row.principal.kind = .human ∧
    (row.membershipId = plan.demote ∧ row.role = .owner ∨
      row.membershipId = plan.promote ∧ row.role ≠ .owner)

/-- The row that a transfer writes over one. -/
def OwnershipTransferPlan.rewrite (plan : OwnershipTransferPlan) (updatedAt : ℤ)
    (row : Membership) : Membership :=
  { row with
    role := if row.membershipId = plan.demote then .member .admin else .owner
    updatedAt := updatedAt }

/-- `applyOwnershipTransfer(plan, updatedAt)`. -/
def Memberships.applyOwnershipTransfer (members : Memberships) (plan : OwnershipTransferPlan)
    (updatedAt : ℤ) : Except CollaborationError Memberships :=
  if members.rows.countP plan.selects = 2 then
    .ok
      { rows := Table.update plan.selects (plan.rewrite updatedAt) members.rows
        ids := members.ids.update fun _ _ => rfl
        places := members.places.update fun _ _ => rfl
        owners := by
          intro row hrow howner
          obtain ⟨old, hold, rfl⟩ := Table.mem_update.mp hrow
          split
          · rename_i hcond
            simp only [OwnershipTransferPlan.selects, decide_eq_true_eq] at hcond
            exact hcond.2.2.1
          · rename_i hcond
            rw [if_neg hcond] at howner
            exact members.owners old hold howner }
  else .error (.storage .ownershipTransferConflict
    (js "Ownership transfer memberships changed before the atomic update"))

section Statements

variable (timestamp : JsString → Option ℤ) (toLowerCase : JsString → JsString)

/-- `instant(value, field)`. -/
def instant (value field : JsString) : Except CollaborationError ℤ :=
  match timestamp value with
  | some time => .ok time
  | none => .error (.storage .invalidTimestamp (field ++ js " must be a valid timestamp"))

/-- The expiry that a grant is given. -/
def grantExpiry (expiresAt : Option JsString) : Except CollaborationError (Option ℤ) :=
  match expiresAt.filter fun value => !value.isEmpty with
  | none => .ok none
  | some value => (instant timestamp value (js "expiresAt")).map some

/-- The grants after one is inserted or written over the principal's. -/
def writtenGrants (grants : List ProjectGrant) (row : ProjectGrant) :
    Except CollaborationError (List ProjectGrant) :=
  if Table.hasKey ProjectGrant.place row.place grants then
    .ok (Table.update (fun old => old.place = row.place)
      (fun old => { old with
        namespaceId := row.namespaceId
        role := row.role
        status := row.status
        updatedAt := row.updatedAt
        expiresAt := row.expiresAt }) grants)
  else if Table.hasKey ProjectGrant.grantId row.grantId grants then .error .constraint
  else .ok (grants ++ [row])

/-- `upsertProjectGrant(input)`, with the name for a new row and the time. -/
def upsertProjectGrant (s : Collaboration) (namespaceId projectId : JsString)
    (principal : Principal) (role : MemberRole) (expiresAt : Option JsString) (grantId : JsString)
    (now : ℤ) : Except CollaborationError Collaboration := do
  let expires ← grantExpiry timestamp expiresAt
  let row : ProjectGrant :=
    ⟨grantId, projectId, namespaceId, principal, role, .active, now, now, expires⟩
  if (projectId, namespaceId) ∉ s.projects then throw .constraint
  let grants ← writtenGrants s.grants row
  -- The check of the table: a grant expires after it was made.
  if ∃ old ∈ grants, old.place = row.place ∧ ∃ expires ∈ old.expiresAt, expires ≤ old.createdAt then
    throw .constraint
  return { s with grants := grants }

/-- `revokeProjectGrant(grantId, revokedAt)`. -/
def revokeProjectGrant (s : Collaboration) (grantId : JsString) (revokedAt : ℤ) : Collaboration :=
  { s with
    grants := Table.update (fun row => row.grantId = grantId ∧ row.status = .active)
      (fun row => { row with status := .revoked revokedAt, updatedAt := revokedAt }) s.grants }

/-- Whether two pending invitations are for one recipient of one target. -/
def Invitation.rivals (left right : Invitation) : Bool :=
  left.status = .pending ∧ right.status = .pending ∧ left.namespaceId = right.namespaceId ∧
    left.projectId.getD [] = right.projectId.getD [] ∧
    (left.recipientUserId ≠ none ∧ left.recipientUserId = right.recipientUserId ∨
      left.recipientEmail ≠ none ∧ left.recipientEmail = right.recipientEmail)

/-- `createInvitation(invitation)`: the row is added if the constraints admit it. -/
def createInvitation (s : Collaboration) (invitation : Invitation) :
    Except CollaborationError Collaboration :=
  let row := { invitation with
    recipientEmail := invitation.recipientEmail.map (normalizedEmail toLowerCase) }
  if Table.hasKey Invitation.invitationId row.invitationId s.invitations ∨
      Table.hasKey Invitation.tokenHash row.tokenHash s.invitations ∨
      s.invitations.any row.rivals ∨
      row.namespaceId ∉ s.namespaces ∨
      (∃ projectId ∈ row.projectId, (projectId, row.namespaceId) ∉ s.projects) ∨
      (∃ userId ∈ row.recipientUserId, userId ∉ s.users) ∨
      (row.recipientUserId = none ∧ row.recipientEmail = none) ∨
      row.recipientEmail = some [] ∨ row.expiresAt ≤ row.createdAt then
    .error .constraint
  else .ok { s with invitations := s.invitations ++ [row] }

/-- `findInvitationByIdForUpdate(invitationId)`. -/
def findInvitation (s : Collaboration) (invitationId : JsString) : Option Invitation :=
  s.invitations.find? fun row => row.invitationId = invitationId

/-- `acceptInvitation(input)`. -/
def acceptInvitation (s : Collaboration) (invitationId acceptedByUserId : JsString)
    (acceptedAt : ℤ) : Except CollaborationError Collaboration :=
  let open_ := fun row : Invitation =>
    decide (row.invitationId = invitationId ∧ row.status = .pending ∧ acceptedAt < row.expiresAt)
  if s.invitations.any open_ = false then
    .error (.storage .invitationStateConflict
      (js "Invitation is no longer pending or has expired"))
  else if acceptedByUserId ∉ s.users then .error .constraint
  else .ok
    { s with
      invitations := Table.update open_
        (fun row => { row with
          status := .accepted acceptedAt acceptedByUserId, updatedAt := acceptedAt })
        s.invitations }

/-- `revokeInvitation(invitationId, revokedAt)`. -/
def revokeInvitation (s : Collaboration) (invitationId : JsString) (revokedAt : ℤ) :
    Except CollaborationError Collaboration :=
  let pending := fun row : Invitation =>
    decide (row.invitationId = invitationId ∧ row.status = .pending)
  if s.invitations.any pending then
    .ok { s with
      invitations := Table.update pending
        (fun row => { row with status := .revoked revokedAt, updatedAt := revokedAt })
        s.invitations }
  else
    match (findInvitation s invitationId).map Invitation.status with
    | some (.revoked _) => .ok s
    | _ => .error (.storage .invitationStateConflict
        (js "Only a pending invitation may be revoked"))

/-- `applyProjectTransfer(plan)`; the order of the two locks decides which missing
namespace is named. -/
def applyProjectTransfer (s : Collaboration) (plan : ProjectTransferPlan) :
    Except CollaborationError Collaboration := do
  if plan.sourceNamespaceId = plan.targetNamespaceId then
    throw (.storage .projectTransferConflict
      (js "Project transfer requires a different target namespace"))
  let (first, second) :=
    if plan.sourceNamespaceId ≤ plan.targetNamespaceId then
      (plan.sourceNamespaceId, plan.targetNamespaceId)
    else (plan.targetNamespaceId, plan.sourceNamespaceId)
  lockNamespace s first
  lockNamespace s second
  if (s.grants.any fun row => row.projectId = plan.projectId) ∨
      (s.invitations.any fun row => row.projectId = some plan.projectId) then
    throw (.storage .projectTransferBlocked
      (js "Project transfer is blocked while project collaboration history exists"))
  if (plan.projectId, plan.sourceNamespaceId) ∉ s.projects then
    throw (.storage .projectTransferConflict
      (js "Project no longer belongs to the expected source namespace"))
  return { s with
    projects := Table.update (fun row => row = (plan.projectId, plan.sourceNamespaceId))
      (fun row => (row.1, plan.targetNamespaceId)) s.projects }

end Statements

end T3x.Identity
