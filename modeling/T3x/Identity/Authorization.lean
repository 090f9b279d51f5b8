import T3x.Js.Str

/-!
# Who may do what in a namespace

A principal acts in a namespace through its membership: the membership has a role,
and a role allows its actions. Only people act on a namespace as a whole, and a
credential may narrow what its bearer reaches.
-/

namespace T3x.Identity

open Js

/-! ## Principals and roles -/

/-- `PrincipalKind`. -/
inductive PrincipalKind where
  | human
  | agent
  | service
  deriving DecidableEq

/-- `CanonicalPrincipalDto`. -/
structure Principal where
  /-- The kind of the principal. -/
  kind : PrincipalKind
  /-- The name of the principal. -/
  principalId : JsString
  deriving DecidableEq

/-- `NamespaceMemberRole` and `ProjectGrantRole`: the roles that can be given. -/
inductive MemberRole where
  | admin
  | editor
  | viewer
  deriving DecidableEq

/-- `NamespaceRole`. -/
inductive NamespaceRole where
  | owner
  | member (role : MemberRole)
  deriving DecidableEq

/-- The stored statuses of a membership or a grant; a revoked row has the time of it. -/
inductive MembershipStatus where
  | active
  | revoked (revokedAt : ℤ)
  deriving DecidableEq

/-- A row of `namespace_memberships`. -/
structure Membership where
  /-- The name of the row. -/
  membershipId : JsString
  /-- The namespace. -/
  namespaceId : JsString
  /-- Whose membership it is. -/
  principal : Principal
  /-- The role. -/
  role : NamespaceRole
  /-- The status. -/
  status : MembershipStatus
  /-- When the row was written first. -/
  createdAt : ℤ
  /-- When the row was written last. -/
  updatedAt : ℤ
  deriving DecidableEq

/-! ## Actions -/

/-- `NamespaceAction`. -/
inductive NamespaceAction where
  | namespaceRead
  | namespaceUpdate
  | namespaceMembersRead
  | namespaceMembersManage
  | namespaceInvitationsManage
  | namespaceOwnershipTransfer
  | projectCreate
  | projectRead
  | projectEdit
  | projectDelete
  | projectRestore
  | projectVisibilityManage
  | projectGuestsManage
  | projectTransfer
  deriving DecidableEq

/-- `namespaceRoleAllows(role, action)`. -/
def namespaceRoleAllows : NamespaceRole → NamespaceAction → Bool
  | .owner, _ => true
  | .member .admin, action => action ≠ .namespaceOwnershipTransfer
  | .member .editor, action =>
    action ∈ [.namespaceRead, .namespaceMembersRead, .projectCreate, .projectRead, .projectEdit]
  | .member .viewer, action => action ∈ [.namespaceRead, .projectRead]

/-- What a credential is narrowed to. -/
structure CredentialScope where
  /-- The only project. -/
  projectId : Option JsString
  /-- The only namespace. -/
  namespaceId : Option JsString

/-- Why an action on a namespace is denied. -/
inductive NamespaceDenial where
  | machinePrincipalRequiresNamespaceScope
  | credentialNamespaceMismatch
  | credentialProjectScopeDenied
  | inactiveMembership
  | namespaceMismatch
  | roleDenied
  | noAuthority
  deriving DecidableEq

/-- A text that is there and not empty. -/
def truthy (text : Option JsString) : Bool :=
  match text with
  | some (_ :: _) => true
  | _ => false

/-- `evaluateNamespaceAction(facts, action)`; no denial allows the action. -/
def evaluateNamespaceAction (principal : Principal) (namespaceId : JsString)
    (membership : Option Membership) (scope : Option CredentialScope)
    (action : NamespaceAction) : Option NamespaceDenial :=
  if principal.kind ≠ .human then some .machinePrincipalRequiresNamespaceScope
  else if scope.any fun scope => truthy scope.projectId then some .credentialProjectScopeDenied
  else if scope.any fun scope =>
      truthy scope.namespaceId ∧ scope.namespaceId ≠ some namespaceId then
    some .credentialNamespaceMismatch
  else
    match membership with
    | none => some .noAuthority
    | some membership =>
      if membership.principal ≠ principal then some .noAuthority
      else if membership.namespaceId ≠ namespaceId then some .namespaceMismatch
      else if membership.status ≠ .active then some .inactiveMembership
      else if namespaceRoleAllows membership.role action = false then some .roleDenied
      else none

end T3x.Identity
