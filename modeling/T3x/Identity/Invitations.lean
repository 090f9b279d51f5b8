import T3x.Identity.LastOwner

/-!
# The life of an invitation

An invitation is pending until it is accepted, declined or revoked, and then it stays as
it is. It is accepted once at most, in time and by its recipient, and the authority that
it gives is written in the same transaction. A project with guests or invitations stays
in its namespace, so those of a project are always of its namespace.
-/

namespace T3x.Identity

open Js

/-! ## Rows -/

/-- The row of an accepted invitation. -/
def Invitation.acceptedBy (row : Invitation) (actorId : JsString) (acceptedAt : ℤ) : Invitation :=
  { row with status := .accepted acceptedAt actorId, updatedAt := acceptedAt }

/-- The row of a revoked invitation. -/
def Invitation.revokedAt (row : Invitation) (revokedAt : ℤ) : Invitation :=
  { row with status := .revoked revokedAt, updatedAt := revokedAt }

/-- A pending row is closed: it is accepted in time, by its recipient if it names one, or it
is revoked. -/
def Closes (users : List JsString) (row next : Invitation) : Prop :=
  row.status = .pending ∧
    ((∃ actorId acceptedAt, acceptedAt < row.expiresAt ∧ actorId ∈ users ∧
      (∀ userId ∈ row.recipientUserId, userId = actorId) ∧
      next = row.acceptedBy actorId acceptedAt) ∨
    ∃ revokedAt, next = row.revokedAt revokedAt)

/-- The authority that an invitation gives is that of the actor: an active membership of the
namespace, or an active grant of the project without an expiry. -/
def Materialized (t : Collaboration) (row : Invitation) (actorId : JsString) : Prop :=
  match row.targetProject with
  | none => ∃ member ∈ t.memberships.rows, member.place = (row.namespaceId, ⟨.human, actorId⟩) ∧
      member.role = .member row.role ∧ member.status = .active
  | some projectId => ∃ grant ∈ t.grants, grant.place = (projectId, ⟨.human, actorId⟩) ∧
      grant.namespaceId = row.namespaceId ∧ grant.role = row.role ∧ grant.status = .active ∧
      grant.expiresAt = none

/-- What the tables keep. -/
structure Sound (s : Collaboration) : Prop where
  /-- No name of an invitation is repeated. -/
  ids : Table.Unique Invitation.invitationId s.invitations
  /-- No token is repeated. -/
  tokens : Table.Unique Invitation.tokenHash s.invitations
  /-- No two pending invitations are for one recipient of one target. -/
  alone : s.invitations.Pairwise fun left right => left.rivals right = false
  /-- No project is in two namespaces. -/
  projects : Table.Unique Prod.fst s.projects
  /-- A guest of a project is one of its namespace. -/
  grants : ∀ grant ∈ s.grants, (grant.projectId, grant.namespaceId) ∈ s.projects
  /-- An invitation to a project is one of its namespace. -/
  targets : ∀ row ∈ s.invitations, ∀ projectId ∈ row.projectId,
    (projectId, row.namespaceId) ∈ s.projects
  /-- An accepted invitation was accepted in time by its recipient. -/
  accepted : ∀ row ∈ s.invitations, ∀ acceptedAt actorId,
    row.status = .accepted acceptedAt actorId → acceptedAt < row.expiresAt ∧
      actorId ∈ s.users ∧ ∀ userId ∈ row.recipientUserId, userId = actorId

variable {timestamp : JsString → Option ℤ} {toLowerCase : JsString → JsString}
  {s t : Collaboration} {command : Command} {namespaceId : JsString}

/-! ## What a command does to the invitations -/

/-- The rows that an acceptance closes. -/
def isOpen (invitationId : JsString) (acceptedAt : ℤ) (row : Invitation) : Bool :=
  decide (row.invitationId = invitationId ∧ row.status = .pending ∧ acceptedAt < row.expiresAt)

/-- The rows that a revocation closes. -/
def isPending (invitationId : JsString) (row : Invitation) : Bool :=
  decide (row.invitationId = invitationId ∧ row.status = .pending)

/-- The invitation that a command accepts if it succeeds, who accepts it and when. -/
def Command.acceptance : Command → Option (JsString × JsString × ℤ)
  | .invitationAccept _ invitationId actorId _ _ evaluatedAt _ =>
    some (invitationId, actorId, evaluatedAt)
  | _ => none

/-- An acceptance that is let through. -/
structure Accepts (toLowerCase : JsString → JsString) (row : Invitation) (actorId : JsString)
    (verifiedEmails : List JsString) (acceptedAt : ℤ) : Prop where
  /-- The invitation is pending. -/
  pending : row.status = .pending
  /-- It has not expired. -/
  inTime : acceptedAt < row.expiresAt
  /-- The actor is the user that it names, if it names one. -/
  recipient : ∀ userId ∈ row.recipientUserId, userId = actorId
  /-- A verified address of the actor is the one that it names, if it names one. -/
  address : ∀ email ∈ row.recipientEmail,
    normalizedEmail toLowerCase email ∈ verifiedEmails.map (normalizedEmail toLowerCase)
  /-- It names a recipient. -/
  bound : ¬ (row.recipientUserId = none ∧ row.recipientEmail = none)

/-- What a command that succeeds does to the invitations. -/
inductive InvitationsStep (toLowerCase : JsString → JsString) (s t : Collaboration)
    (command : Command) : Prop where
  | kept (h : t.invitations = s.invitations) (hcommand : command.acceptance = none)
  | created {row : Invitation} (h : t.invitations = s.invitations ++ [row])
      (hcommand : command.acceptance = none) (hpending : row.status = .pending)
      (hid : ∀ old ∈ s.invitations, old.invitationId ≠ row.invitationId)
      (htoken : ∀ old ∈ s.invitations, old.tokenHash ≠ row.tokenHash)
      (halone : ∀ old ∈ s.invitations, row.rivals old = false)
      (htarget : ∀ projectId ∈ row.projectId, (projectId, row.namespaceId) ∈ s.projects)
  | revoked {invitationId : JsString} {evaluatedAt : ℤ}
      (h : t.invitations = Table.update (isPending invitationId) (·.revokedAt evaluatedAt)
        s.invitations) (hcommand : command.acceptance = none)
  | accepted {actorId : JsString} {verifiedEmails : List JsString} {evaluatedAt : ℤ}
      {row : Invitation} (h : t.invitations = Table.update (isOpen row.invitationId evaluatedAt)
        (·.acceptedBy actorId evaluatedAt) s.invitations)
      (hcommand : command.acceptance = some (row.invitationId, actorId, evaluatedAt))
      (hstored : row ∈ s.invitations) (huser : actorId ∈ s.users)
      (haccepts : Accepts toLowerCase row actorId verifiedEmails evaluatedAt)

/-- The projects are those of before, and so are the projects of the guests, unless a guest
is one of the namespace of its project. -/
def KeepsProjects (s t : Collaboration) : Prop :=
  t.projects = s.projects ∧ ∀ grant ∈ t.grants,
    (∃ old ∈ s.grants, old.projectId = grant.projectId ∧ old.namespaceId = grant.namespaceId) ∨
      (grant.projectId, grant.namespaceId) ∈ s.projects

/-- What a command that succeeds does to the guests and the projects. -/
inductive PlacesStep (s t : Collaboration) : Prop where
  | kept (h : KeepsProjects s t)
  | moved {projectId source target : JsString} (hgrants : t.grants = s.grants)
      (hinvitations : t.invitations = s.invitations)
      (hguests : ∀ grant ∈ s.grants, grant.projectId ≠ projectId)
      (hinvited : ∀ row ∈ s.invitations, row.projectId ≠ some projectId)
      (hprojects : t.projects = Table.update (fun row => row = (projectId, source))
        (fun row => (row.1, target)) s.projects)

/-- Where the guests are those of before, so are their projects. -/
theorem KeepsProjects.of_eq (hprojects : t.projects = s.projects) (hgrants : t.grants = s.grants) :
    KeepsProjects s t :=
  ⟨hprojects, fun grant hgrant => .inl ⟨grant, hgrants ▸ hgrant, rfl, rfl⟩⟩

/-! ## Guests -/

/-- The guests after a write are those before it, and one of the project that is written. -/
theorem mem_writtenGrants {grants written : List ProjectGrant} {row : ProjectGrant}
    (h : writtenGrants grants row = .ok written) {grant : ProjectGrant} (hgrant : grant ∈ written) :
    grant ∈ grants ∧ grant.place ≠ row.place ∨
      grant.place = row.place ∧ grant.namespaceId = row.namespaceId ∧ grant.role = row.role ∧
        grant.status = row.status ∧ grant.expiresAt = row.expiresAt := by
  rw [writtenGrants] at h
  split at h
  · obtain rfl := Except.ok.inj h
    obtain ⟨old, hold, rfl⟩ := Table.mem_update.mp hgrant
    by_cases hplace : old.place = row.place
    · rw [if_pos (decide_eq_true hplace)]
      exact .inr ⟨hplace, rfl, rfl, rfl, rfl⟩
    · rw [if_neg (by simpa using hplace)]
      exact .inl ⟨hold, hplace⟩
  · rename_i hfree
    split at h
    · cases h
    · obtain rfl := Except.ok.inj h
      rcases List.mem_append.mp hgrant with hgrant | hgrant
      · rw [Bool.not_eq_true, Table.hasKey_eq_false_iff] at hfree
        exact .inl ⟨hgrant, hfree grant hgrant⟩
      · obtain rfl := List.mem_singleton.mp hgrant
        exact .inr ⟨rfl, rfl, rfl, rfl, rfl⟩

/-- After a write, the guest is there. -/
theorem exists_mem_writtenGrants {grants written : List ProjectGrant} {row : ProjectGrant}
    (h : writtenGrants grants row = .ok written) : ∃ grant ∈ written, grant.place = row.place := by
  rw [writtenGrants] at h
  split at h
  · rename_i htaken
    obtain rfl := Except.ok.inj h
    obtain ⟨old, hold, hplace⟩ := Table.hasKey_eq_true_iff.mp htaken
    exact ⟨_, Table.mem_update_of_cond hold (decide_eq_true hplace), hplace⟩
  · split at h
    · cases h
    · obtain rfl := Except.ok.inj h
      exact ⟨row, List.mem_append_right _ List.mem_cons_self, rfl⟩

/-- A guest that was written is one of the project's namespace. -/
theorem upsertProjectGrant_eq_ok {projectId grantId : JsString} {principal : Principal}
    {role : MemberRole} {expiresAt : Option JsString} {now : ℤ}
    (h : upsertProjectGrant timestamp s namespaceId projectId principal role expiresAt grantId now =
      .ok t) : ∃ expires grants, grantExpiry timestamp expiresAt = .ok expires ∧
      (projectId, namespaceId) ∈ s.projects ∧ writtenGrants s.grants
        ⟨grantId, projectId, namespaceId, principal, role, .active, now, now, expires⟩ =
          .ok grants ∧ t = { s with grants := grants } := by
  rw [upsertProjectGrant] at h
  obtain ⟨expires, hexpires, h⟩ := bind_eq_ok_iff.mp h
  obtain ⟨hproject, h⟩ := refuse_eq_ok_iff.mp h
  obtain ⟨grants, hgrants, h⟩ := bind_eq_ok_iff.mp h
  obtain ⟨-, h⟩ := refuse_eq_ok_iff.mp h
  exact ⟨expires, grants, hexpires, not_not.mp hproject, hgrants, (Except.ok.inj h).symm⟩

/-- Writing a guest keeps the projects. -/
theorem keepsProjects_upsertProjectGrant {projectId grantId : JsString} {principal : Principal}
    {role : MemberRole} {expiresAt : Option JsString} {now : ℤ}
    (h : upsertProjectGrant timestamp s namespaceId projectId principal role expiresAt grantId now =
      .ok t) : KeepsProjects s t := by
  obtain ⟨expires, grants, -, hproject, hgrants, rfl⟩ := upsertProjectGrant_eq_ok h
  refine ⟨rfl, fun grant hgrant => ?_⟩
  rcases mem_writtenGrants hgrants hgrant with ⟨hold, -⟩ | ⟨hplace, hnamespace, -⟩
  · exact .inl ⟨grant, hold, rfl, rfl⟩
  · have hprojectId : grant.projectId = projectId := congrArg Prod.fst hplace
    rw [hprojectId, hnamespace]
    exact .inr hproject

/-- Moving a project moves no guest and no invitation. -/
theorem placesStep_applyProjectTransfer {plan : ProjectTransferPlan}
    (h : applyProjectTransfer s plan = .ok t) :
    t.users = s.users ∧ t.invitations = s.invitations ∧ PlacesStep s t := by
  rw [applyProjectTransfer] at h
  obtain ⟨-, h⟩ := refuse_eq_ok_iff.mp h
  obtain ⟨-, -, h⟩ := bind_eq_ok_iff.mp h
  obtain ⟨-, -, h⟩ := bind_eq_ok_iff.mp h
  obtain ⟨hfree, h⟩ := refuse_eq_ok_iff.mp h
  obtain ⟨-, h⟩ := refuse_eq_ok_iff.mp h
  obtain rfl := Except.ok.inj h
  rw [not_or, Bool.not_eq_true, Bool.not_eq_true, List.any_eq_false, List.any_eq_false] at hfree
  refine ⟨rfl, rfl, .moved rfl rfl (fun grant hgrant hsame => ?_) (fun row hrow hsame => ?_) rfl⟩
  · exact hfree.1 grant hgrant (decide_eq_true hsame)
  · exact hfree.2 row hrow (decide_eq_true hsame)

/-! ## Invitations -/

/-- An invitation that is found is there under its name. -/
theorem mem_of_findInvitation {invitationId : JsString} {row : Invitation}
    (h : findInvitation s invitationId = some row) :
    row ∈ s.invitations ∧ row.invitationId = invitationId := by
  have hname := List.find?_some h
  rw [decide_eq_true_eq] at hname
  exact ⟨List.mem_of_find?_eq_some h, hname⟩

/-- An invitation may be accepted exactly when the acceptance is let through. -/
theorem assertInvitationMayBeAccepted_eq_ok_iff {row : Invitation} {actorId : JsString}
    {verifiedEmails : List JsString} {evaluatedAt : ℤ} {u : Unit} :
    assertInvitationMayBeAccepted toLowerCase row actorId verifiedEmails evaluatedAt = .ok u ↔
      Accepts toLowerCase row actorId verifiedEmails evaluatedAt := by
  rw [assertInvitationMayBeAccepted]
  constructor
  · intro h
    split at h
    · cases h
    · rename_i hpending
      split at h
      · cases h
      · rename_i hexpired
        split at h
        · cases h
        · rename_i hmismatch
          push Not at hmismatch
          exact ⟨not_not.mp hpending, not_le.mp hexpired, hmismatch.1, hmismatch.2.1,
            fun hnone => hmismatch.2.2 hnone.1 hnone.2⟩
  · intro haccepts
    rw [if_neg (not_not.mpr haccepts.pending), if_neg (not_le.mpr haccepts.inTime), if_neg]
    rintro (⟨userId, huser, hne⟩ | ⟨email, hemail, hnot⟩ | hnone)
    · exact hne (haccepts.recipient userId huser)
    · exact hnot (haccepts.address email hemail)
    · exact haccepts.bound hnone

/-- The invitation of a command is the one of its name in the namespace that was read. -/
theorem lockedInvitation_eq_ok_iff {invitationId : JsString} {row : Invitation} :
    lockedInvitation s namespaceId invitationId = .ok row ↔
      namespaceId ∈ s.namespaces ∧ findInvitation s invitationId = some row ∧
        row.namespaceId = namespaceId := by
  rw [lockedInvitation, bind_eq_ok_iff]
  constructor
  · rintro ⟨_, hlock, h⟩
    refine ⟨lockNamespace_eq_ok_iff.mp hlock, ?_⟩
    split at h
    · cases h
    · rename_i found hfound
      obtain ⟨hnamespace, h⟩ := refuse_eq_ok_iff.mp h
      obtain rfl := Except.ok.inj h
      exact ⟨hfound, not_not.mp hnamespace⟩
  · rintro ⟨hlock, hfound, hnamespace⟩
    refine ⟨(), lockNamespace_eq_ok_iff.mpr hlock, ?_⟩
    rw [hfound]
    exact refuse_eq_ok_iff.mpr ⟨not_not.mpr hnamespace, rfl⟩

/-- An actor may accept an invitation exactly when it is found and lets the actor through. -/
theorem acceptableInvitation_eq_ok_iff {invitationId actorId : JsString}
    {verifiedEmails : List JsString} {evaluatedAt : ℤ} {row : Invitation} :
    acceptableInvitation toLowerCase s namespaceId invitationId actorId verifiedEmails
        evaluatedAt = .ok row ↔
      (namespaceId ∈ s.namespaces ∧ findInvitation s invitationId = some row ∧
        row.namespaceId = namespaceId) ∧
      Accepts toLowerCase row actorId verifiedEmails evaluatedAt := by
  rw [acceptableInvitation, bind_eq_ok_iff]
  constructor
  · rintro ⟨found, hfound, h⟩
    obtain ⟨_, hmay, h⟩ := bind_eq_ok_iff.mp h
    obtain rfl := Except.ok.inj h
    exact ⟨lockedInvitation_eq_ok_iff.mp hfound,
      assertInvitationMayBeAccepted_eq_ok_iff.mp hmay⟩
  · rintro ⟨hfound, haccepts⟩
    exact ⟨row, lockedInvitation_eq_ok_iff.mpr hfound, bind_eq_ok_iff.mpr
      ⟨(), assertInvitationMayBeAccepted_eq_ok_iff.mpr haccepts, rfl⟩⟩

/-- Closing an invitation by its acceptance rewrites the row. -/
theorem acceptInvitation_eq_ok_iff {invitationId actorId : JsString} {evaluatedAt : ℤ} :
    acceptInvitation s invitationId actorId evaluatedAt = .ok t ↔
      (∃ row ∈ s.invitations, isOpen invitationId evaluatedAt row = true) ∧ actorId ∈ s.users ∧
        t = { s with
          invitations := Table.update (isOpen invitationId evaluatedAt)
            (·.acceptedBy actorId evaluatedAt) s.invitations } := by
  simp only [acceptInvitation]
  constructor
  · intro h
    split at h
    · cases h
    · rename_i hopen
      split at h
      · cases h
      · rename_i huser
        rw [Bool.not_eq_false, List.any_eq_true] at hopen
        exact ⟨hopen, not_not.mp huser, (Except.ok.inj h).symm⟩
  · rintro ⟨hopen, huser, rfl⟩
    rw [if_neg, if_neg (not_not.mpr huser)]
    · rfl
    · rw [Bool.not_eq_false, List.any_eq_true]
      exact hopen

/-- A revocation keeps everything, or it rewrites the row. -/
theorem revokeInvitation_eq_ok {invitationId : JsString} {evaluatedAt : ℤ}
    (h : revokeInvitation s invitationId evaluatedAt = .ok t) :
    t = s ∨ t = { s with
      invitations := Table.update (isPending invitationId) (·.revokedAt evaluatedAt)
        s.invitations } := by
  rw [revokeInvitation] at h
  split at h
  · exact .inr (Except.ok.inj h).symm
  · split at h
    · exact .inl (Except.ok.inj h).symm
    · cases h

/-! ## Acceptances -/

/-- A member that was written has the role and is active. -/
theorem Memberships.exists_mem_upsert {members next : Memberships} {principal : Principal}
    {role : MemberRole} {membershipId : JsString} {now : ℤ}
    (h : members.upsert namespaceId principal role membershipId now = .ok next) :
    ∃ member ∈ next.rows, member.place = (namespaceId, principal) ∧ member.role = .member role ∧
      member.status = .active := by
  simp only [Memberships.upsert] at h
  split at h
  · split at h
    · obtain rfl := Except.ok.inj h
      exact ⟨_, List.mem_append_right _ List.mem_cons_self, rfl, rfl, rfl⟩
    · cases h
  · rename_i htaken
    obtain rfl := Except.ok.inj h
    rw [Bool.not_eq_false, Table.hasKey_eq_true_iff] at htaken
    obtain ⟨old, hold, hplace⟩ := htaken
    exact ⟨_, Table.mem_update_of_cond hold (decide_eq_true hplace), hplace, rfl, rfl⟩

/-- The authority of an invitation is written, and nothing else but members and guests. -/
theorem materialize_eq_ok {row : Invitation} {actorId rowId : JsString} {now : ℤ}
    (h : materialize timestamp s row actorId rowId now = .ok t) :
    t.invitations = s.invitations ∧ t.users = s.users ∧ KeepsProjects s t ∧
      Materialized t row actorId := by
  cases htarget : row.targetProject with
  | none =>
    simp only [materialize, htarget] at h
    simp only [Materialized, htarget]
    obtain ⟨members, hupsert, h⟩ := bind_eq_ok_iff.mp h
    obtain rfl := Except.ok.inj h
    exact ⟨rfl, rfl, .of_eq rfl rfl, Memberships.exists_mem_upsert hupsert⟩
  | some projectId =>
    simp only [materialize, htarget] at h
    simp only [Materialized, htarget]
    have hprojects := keepsProjects_upsertProjectGrant h
    obtain ⟨expires, grants, hexpires, hproject, hgrants, rfl⟩ := upsertProjectGrant_eq_ok h
    obtain rfl := Except.ok.inj hexpires
    refine ⟨rfl, rfl, hprojects, ?_⟩
    obtain ⟨grant, hgrant, hplace⟩ := exists_mem_writtenGrants hgrants
    rcases mem_writtenGrants hgrants hgrant with ⟨-, hother⟩ | ⟨-, hwritten⟩
    · exact absurd hplace hother
    · exact ⟨grant, hgrant, hplace, hwritten⟩

/-- An acceptance that succeeds closes the invitation and writes its authority. -/
theorem acceptStoredInvitation_eq_ok {invitationId actorId rowId : JsString}
    {verifiedEmails : List JsString} {evaluatedAt now : ℤ}
    (h : acceptStoredInvitation timestamp toLowerCase s namespaceId invitationId actorId
      verifiedEmails rowId evaluatedAt now = .ok t) :
    ∃ row ∈ s.invitations, row.invitationId = invitationId ∧ actorId ∈ s.users ∧
      Accepts toLowerCase row actorId verifiedEmails evaluatedAt ∧
      t.invitations = Table.update (isOpen invitationId evaluatedAt)
        (·.acceptedBy actorId evaluatedAt) s.invitations ∧
      t.users = s.users ∧ KeepsProjects s t ∧ Materialized t row actorId := by
  rw [acceptStoredInvitation] at h
  obtain ⟨row, hrow, h⟩ := bind_eq_ok_iff.mp h
  obtain ⟨written, hwritten, haccept⟩ := bind_eq_ok_iff.mp h
  obtain ⟨⟨-, hfound, -⟩, haccepts⟩ := acceptableInvitation_eq_ok_iff.mp hrow
  obtain ⟨hmem, rfl⟩ := mem_of_findInvitation hfound
  obtain ⟨hinvitations, husers, hprojects, hmaterialized⟩ := materialize_eq_ok hwritten
  obtain ⟨-, huser, rfl⟩ := acceptInvitation_eq_ok_iff.mp haccept
  exact ⟨row, hmem, rfl, husers ▸ huser, haccepts, by rw [hinvitations], husers, hprojects,
    hmaterialized⟩

/-! ## Commands -/

/-- A command that succeeds, whatever it does to the members. -/
structure CollaborationStep (toLowerCase : JsString → JsString) (s t : Collaboration)
    (command : Command) : Prop where
  /-- The users are those of before. -/
  users : t.users = s.users
  /-- What it does to the invitations. -/
  invitations : InvitationsStep toLowerCase s t command
  /-- What it does to the guests and the projects. -/
  places : PlacesStep s t

/-- A command that leaves the invitations, the projects of the guests and the users alone. -/
theorem CollaborationStep.of_eq (hcommand : command.acceptance = none)
    (husers : t.users = s.users) (hinvitations : t.invitations = s.invitations)
    (hprojects : KeepsProjects s t) : CollaborationStep toLowerCase s t command :=
  ⟨husers, .kept hinvitations hcommand, .kept hprojects⟩

/-- Revoking an invitation rewrites its row at most. -/
theorem collaborationStep_revokeInvitation {invitationId : JsString} {evaluatedAt : ℤ}
    (hcommand : command.acceptance = none)
    (h : revokeInvitation s invitationId evaluatedAt = .ok t) :
    CollaborationStep toLowerCase s t command := by
  rcases revokeInvitation_eq_ok h with rfl | rfl
  · exact .of_eq hcommand rfl rfl (.of_eq rfl rfl)
  · exact ⟨rfl, .revoked rfl hcommand, .kept (.of_eq rfl rfl)⟩

/-- An invitation that was created is pending, alone for its recipient, and to a project of
its namespace. -/
theorem collaborationStep_createInvitation {invitation : Invitation}
    (hpending : invitation.status = .pending) (hcommand : command.acceptance = none)
    (h : createInvitation toLowerCase s invitation = .ok t) :
    CollaborationStep toLowerCase s t command := by
  simp only [createInvitation] at h
  split at h
  · cases h
  · rename_i hfree
    obtain rfl := Except.ok.inj h
    simp only [not_or, Bool.not_eq_true, Table.hasKey_eq_false_iff, List.any_eq_false] at hfree
    obtain ⟨hid, htoken, halone, -, htarget, -⟩ := hfree
    push Not at htarget
    exact ⟨rfl, .created rfl hcommand hpending hid htoken halone htarget,
      .kept (.of_eq rfl rfl)⟩

/-- Revoking a guest leaves it where it is. -/
theorem keepsProjects_revokeProjectGrant {grantId : JsString} {revokedAt : ℤ} :
    KeepsProjects s (revokeProjectGrant s grantId revokedAt) := by
  refine ⟨rfl, fun grant hgrant => ?_⟩
  obtain ⟨old, hold, rfl⟩ := Table.mem_update.mp hgrant
  refine .inl ⟨old, hold, ?_⟩
  split <;> exact ⟨rfl, rfl⟩

/-- Every command that succeeds takes such a step. -/
theorem collaborationStep_of_execute (h : execute timestamp toLowerCase s command = .ok t) :
    CollaborationStep toLowerCase s t command := by
  cases command with
  | memberUpsert =>
    obtain ⟨-, -, h⟩ := bind_eq_ok_iff.mp h
    obtain ⟨members, -, h⟩ := bind_eq_ok_iff.mp h
    obtain rfl := Except.ok.inj h
    exact .of_eq rfl rfl rfl (.of_eq rfl rfl)
  | memberRevoke =>
    obtain ⟨-, -, h⟩ := bind_eq_ok_iff.mp h
    split at h
    · cases h
    · split at h
      · obtain rfl := Except.ok.inj h
        exact .of_eq rfl rfl rfl (.of_eq rfl rfl)
      · obtain ⟨-, -, h⟩ := bind_eq_ok_iff.mp h
        obtain rfl := Except.ok.inj h
        exact .of_eq rfl rfl rfl (.of_eq rfl rfl)
  | ownershipTransfer =>
    obtain ⟨-, -, h⟩ := bind_eq_ok_iff.mp h
    split at h
    · obtain ⟨plan, -, h⟩ := bind_eq_ok_iff.mp h
      obtain ⟨members, -, h⟩ := bind_eq_ok_iff.mp h
      obtain rfl := Except.ok.inj h
      exact .of_eq rfl rfl rfl (.of_eq rfl rfl)
    · cases h
  | guestGrant =>
    obtain ⟨-, -, h⟩ := bind_eq_ok_iff.mp h
    obtain ⟨-, -, h⟩ := bind_eq_ok_iff.mp h
    have hprojects := keepsProjects_upsertProjectGrant h
    obtain ⟨-, grants, -, -, -, rfl⟩ := upsertProjectGrant_eq_ok h
    exact .of_eq rfl rfl rfl hprojects
  | guestRevoke =>
    obtain ⟨-, -, h⟩ := bind_eq_ok_iff.mp h
    split at h
    · cases h
    · split at h
      · obtain rfl := Except.ok.inj h
        exact .of_eq rfl rfl rfl (.of_eq rfl rfl)
      · obtain rfl := Except.ok.inj h
        exact .of_eq rfl rfl rfl keepsProjects_revokeProjectGrant
  | projectTransfer =>
    obtain ⟨plan, -, h⟩ := bind_eq_ok_iff.mp h
    obtain ⟨husers, hinvitations, hplaces⟩ := placesStep_applyProjectTransfer h
    exact ⟨husers, .kept hinvitations rfl, hplaces⟩
  | invitationCreate =>
    obtain ⟨-, -, h⟩ := bind_eq_ok_iff.mp h
    obtain ⟨-, -, h⟩ := bind_eq_ok_iff.mp h
    obtain ⟨expires, -, h⟩ := bind_eq_ok_iff.mp h
    exact collaborationStep_createInvitation rfl rfl h
  | invitationAccept =>
    obtain ⟨row, hmem, rfl, huser, haccepts, hinvitations, husers, hprojects, -⟩ :=
      acceptStoredInvitation_eq_ok h
    exact ⟨husers, .accepted hinvitations rfl hmem huser haccepts, .kept hprojects⟩
  | invitationRevoke =>
    obtain ⟨current, -, h⟩ := bind_eq_ok_iff.mp h
    split at h
    · obtain rfl := Except.ok.inj h
      exact .of_eq rfl rfl rfl (.of_eq rfl rfl)
    · exact collaborationStep_revokeInvitation rfl h
  | invitationDecline =>
    obtain ⟨-, -, h⟩ := bind_eq_ok_iff.mp h
    exact collaborationStep_revokeInvitation rfl h

/-! ## What every command keeps -/

/-- Two rows are rivals in either order. -/
theorem Invitation.rivals_symm (left right : Invitation) :
    left.rivals right = right.rivals left := by
  simp only [Invitation.rivals, decide_eq_decide]
  constructor
  all_goals
    rintro ⟨hleft, hright, hnamespace, hproject, hrecipient⟩
    refine ⟨hright, hleft, hnamespace.symm, hproject.symm, ?_⟩
    rcases hrecipient with ⟨hsome, hsame⟩ | ⟨hsome, hsame⟩
    · exact .inl ⟨hsame ▸ hsome, hsame.symm⟩
    · exact .inr ⟨hsame ▸ hsome, hsame.symm⟩

/-- A row that is not pending has no rivals. -/
theorem Invitation.rivals_eq_false {left right : Invitation}
    (h : left.status ≠ .pending ∨ right.status ≠ .pending) : left.rivals right = false := by
  simp only [Invitation.rivals, decide_eq_false_iff_not]
  rintro ⟨hleft, hright, -⟩
  exact h.elim (absurd hleft) (absurd hright)

/-- Rows that are closed or left as they are get no rivals. -/
theorem pairwise_update_rivals {rows : List Invitation} {cond : Invitation → Bool}
    {write : Invitation → Invitation} (hwrite : ∀ row, (write row).status ≠ .pending)
    (h : rows.Pairwise fun left right => left.rivals right = false) :
    (Table.update cond write rows).Pairwise fun left right => left.rivals right = false := by
  rw [Table.update, List.pairwise_map]
  refine h.imp fun {left right} hfree => ?_
  split
  · exact Invitation.rivals_eq_false (.inl (hwrite left))
  · split
    · exact Invitation.rivals_eq_false (.inr (hwrite right))
    · exact hfree

/-- Names and tokens stay unique, and rivals apart. -/
theorem Sound.keys (hsound : Sound s) (h : InvitationsStep toLowerCase s t command) :
    Table.Unique Invitation.invitationId t.invitations ∧
      Table.Unique Invitation.tokenHash t.invitations ∧
      t.invitations.Pairwise fun left right => left.rivals right = false := by
  cases h with
  | kept h =>
    rw [h]
    exact ⟨hsound.ids, hsound.tokens, hsound.alone⟩
  | created h _ _ hid htoken halone =>
    rw [h, List.pairwise_append]
    refine ⟨hsound.ids.append hid, hsound.tokens.append htoken, hsound.alone,
      List.pairwise_singleton _ _, fun old hold row hrow => ?_⟩
    rw [List.mem_singleton.mp hrow, Invitation.rivals_symm]
    exact halone old hold
  | revoked h =>
    rw [h]
    exact ⟨hsound.ids.update fun _ _ => rfl, hsound.tokens.update fun _ _ => rfl,
      pairwise_update_rivals (fun _ => by rintro ⟨⟩) hsound.alone⟩
  | accepted h =>
    rw [h]
    exact ⟨hsound.ids.update fun _ _ => rfl, hsound.tokens.update fun _ _ => rfl,
      pairwise_update_rivals (fun _ => by rintro ⟨⟩) hsound.alone⟩

/-- A row after a command is one of before, a pending one to a project of its namespace, or
one that was closed. -/
theorem Sound.mem_or_closes (hsound : Sound s) (h : InvitationsStep toLowerCase s t command)
    {next : Invitation} (hnext : next ∈ t.invitations) :
    next ∈ s.invitations ∨
      (next.status = .pending ∧
        ∀ projectId ∈ next.projectId, (projectId, next.namespaceId) ∈ s.projects) ∨
      ∃ row ∈ s.invitations, Closes s.users row next := by
  cases h with
  | kept h => exact .inl (h ▸ hnext)
  | created h _ hpending _ _ _ htarget =>
    rw [h] at hnext
    rcases List.mem_append.mp hnext with hnext | hnext
    · exact .inl hnext
    · rw [List.mem_singleton.mp hnext]
      exact .inr (.inl ⟨hpending, htarget⟩)
  | revoked h =>
    rw [h] at hnext
    obtain ⟨old, hold, rfl⟩ := Table.mem_update.mp hnext
    split
    · rename_i hcond
      exact .inr (.inr ⟨old, hold, (of_decide_eq_true hcond).2, .inr ⟨_, rfl⟩⟩)
    · exact .inl hold
  | accepted h _ hstored huser haccepts =>
    rw [h] at hnext
    obtain ⟨old, hold, rfl⟩ := Table.mem_update.mp hnext
    split
    · rename_i hcond
      obtain ⟨hid, hpending, hexpires⟩ := of_decide_eq_true hcond
      obtain rfl := hsound.ids.eq hold hstored hid
      exact .inr (.inr ⟨old, hold, hpending, .inl
        ⟨_, _, hexpires, huser, haccepts.recipient, rfl⟩⟩)
    · exact .inl hold

/-- A row stays as it is, or it is closed. -/
theorem Sound.exists_next (hsound : Sound s) (h : InvitationsStep toLowerCase s t command)
    {row : Invitation} (hrow : row ∈ s.invitations) :
    ∃ next ∈ t.invitations, next = row ∨ Closes s.users row next := by
  cases h with
  | kept h => exact ⟨row, h ▸ hrow, .inl rfl⟩
  | created h => exact ⟨row, h ▸ List.mem_append_left _ hrow, .inl rfl⟩
  | @revoked invitationId evaluatedAt h =>
    rw [h]
    by_cases hcond : isPending invitationId row = true
    · exact ⟨_, Table.mem_update_of_cond hrow hcond, .inr
        ⟨(of_decide_eq_true hcond).2, .inr ⟨_, rfl⟩⟩⟩
    · exact ⟨row, Table.mem_update_of_not hrow (Bool.not_eq_true _ ▸ hcond), .inl rfl⟩
  | @accepted actorId verifiedEmails evaluatedAt accepted h _ hstored huser haccepts =>
    rw [h]
    by_cases hcond : isOpen accepted.invitationId evaluatedAt row = true
    · obtain ⟨hid, hpending, hexpires⟩ := of_decide_eq_true hcond
      obtain rfl := hsound.ids.eq hrow hstored hid
      exact ⟨_, Table.mem_update_of_cond hrow hcond, .inr ⟨hpending, .inl
        ⟨_, _, hexpires, huser, haccepts.recipient, rfl⟩⟩⟩
    · exact ⟨row, Table.mem_update_of_not hrow (Bool.not_eq_true _ ▸ hcond), .inl rfl⟩

/-- A row that was closed is of the same project and namespace. -/
theorem Closes.target {users : List JsString} {row next : Invitation} (h : Closes users row next) :
    next.projectId = row.projectId ∧ next.namespaceId = row.namespaceId := by
  obtain ⟨-, ⟨_, _, _, _, _, rfl⟩ | ⟨_, rfl⟩⟩ := h
  · exact ⟨rfl, rfl⟩
  · exact ⟨rfl, rfl⟩

/-- The project of an invitation is one of its namespace before the command. -/
theorem Sound.target_before (hsound : Sound s) (h : InvitationsStep toLowerCase s t command)
    {next : Invitation} (hnext : next ∈ t.invitations) {projectId : JsString}
    (hprojectId : projectId ∈ next.projectId) : (projectId, next.namespaceId) ∈ s.projects := by
  rcases hsound.mem_or_closes h hnext with hold | ⟨-, htarget⟩ | ⟨row, hrow, hcloses⟩
  · exact hsound.targets next hold projectId hprojectId
  · exact htarget projectId hprojectId
  · rw [hcloses.target.1] at hprojectId
    rw [hcloses.target.2]
    exact hsound.targets row hrow projectId hprojectId

/-- What the tables keep is kept by every command that succeeds. -/
theorem Sound.step (hsound : Sound s) (h : CollaborationStep toLowerCase s t command) :
    Sound t := by
  obtain ⟨husers, hinvitations, hplaces⟩ := h
  obtain ⟨hids, htokens, halone⟩ := hsound.keys hinvitations
  have haccepted : ∀ row ∈ t.invitations, ∀ acceptedAt actorId,
      row.status = .accepted acceptedAt actorId → acceptedAt < row.expiresAt ∧
        actorId ∈ t.users ∧ ∀ userId ∈ row.recipientUserId, userId = actorId := by
    intro next hnext acceptedAt actorId hstatus
    rw [husers]
    rcases hsound.mem_or_closes hinvitations hnext with hold | ⟨hpending, -⟩ | ⟨row, -, hcloses⟩
    · exact hsound.accepted next hold acceptedAt actorId hstatus
    · rw [hpending] at hstatus
      cases hstatus
    · obtain ⟨-, ⟨_, _, hexpires, huser, hrecipient, rfl⟩ | ⟨_, rfl⟩⟩ := hcloses
      · cases hstatus
        exact ⟨hexpires, huser, hrecipient⟩
      · cases hstatus
  cases hplaces with
  | kept hkept =>
    obtain ⟨hprojects, hgrants⟩ := hkept
    refine ⟨hids, htokens, halone, hprojects ▸ hsound.projects, fun grant hgrant => ?_,
      fun row hrow projectId hprojectId => ?_, haccepted⟩
    · rw [hprojects]
      rcases hgrants grant hgrant with ⟨old, hold, hproject, hnamespace⟩ | hproject
      · rw [← hproject, ← hnamespace]
        exact hsound.grants old hold
      · exact hproject
    · rw [hprojects]
      exact hsound.target_before hinvitations hrow hprojectId
  | moved hgrants hinvitations' hguests hinvited hprojects =>
    -- Neither a guest nor an invitation is of the project that moves.
    refine ⟨hids, htokens, halone, ?_, fun grant hgrant => ?_,
      fun row hrow projectId hprojectId => ?_, haccepted⟩
    · rw [hprojects]
      exact hsound.projects.update fun _ _ => rfl
    · rw [hprojects]
      rw [hgrants] at hgrant
      refine Table.mem_update_of_not (hsound.grants grant hgrant) (decide_eq_false ?_)
      rintro ⟨⟩
      exact hguests grant hgrant rfl
    · rw [hprojects]
      rw [hinvitations'] at hrow
      refine Table.mem_update_of_not (hsound.targets row hrow projectId hprojectId)
        (decide_eq_false fun hsame => ?_)
      obtain ⟨rfl, -⟩ := Prod.mk.inj hsame
      exact hinvited row hrow hprojectId

/-! ## One invitation -/

/-- The namespace of alice and bob, with an invitation for carol. -/
def acmeInvites : Collaboration :=
  { acme with
    users := [js "alice", js "bob", js "carol"]
    invitations :=
      [⟨js "i1", js "acme", none, some (js "carol"), none, .editor, js "hash", .pending,
        ⟨.human, js "alice"⟩, 0, 0, 10⟩] }

/-- The tables of the namespace are sound. -/
theorem sound_acmeInvites : Sound acmeInvites where
  ids := by decide
  tokens := by decide
  alone := by decide
  projects := by decide
  grants := by rintro _ ⟨⟩
  targets := by
    intro row hrow projectId hprojectId
    rw [List.mem_singleton.mp hrow] at hprojectId
    cases hprojectId
  accepted := by
    intro row hrow acceptedAt actorId hstatus
    rw [List.mem_singleton.mp hrow] at hstatus
    cases hstatus

/-- Carol accepts the invitation. -/
def carolAccepts : Command :=
  .invitationAccept (js "acme") (js "i1") (js "carol") [] (js "m3") 5 5

/-! ## Runs -/

/-- The acceptances that a command makes: one if it accepts and succeeds. -/
def acceptances (timestamp : JsString → Option ℤ) (toLowerCase : JsString → JsString)
    (s : Collaboration) (command : Command) : List (JsString × JsString × ℤ) :=
  match execute timestamp toLowerCase s command with
  | .ok _ => command.acceptance.toList
  | .error _ => []

/-- A run from `s`, with the acceptances that it has made. -/
inductive Run (timestamp : JsString → Option ℤ) (toLowerCase : JsString → JsString)
    (s : Collaboration) : List (JsString × JsString × ℤ) → Collaboration → Prop where
  | start : Run timestamp toLowerCase s [] s
  | step {history : List (JsString × JsString × ℤ)} {t : Collaboration}
      (hrun : Run timestamp toLowerCase s history t) (command : Command) :
      Run timestamp toLowerCase s (history ++ acceptances timestamp toLowerCase t command)
        (settle timestamp toLowerCase t command)

/-- The invitation is accepted by the one and at the time that are recorded. -/
def AcceptedAs (s : Collaboration) (entry : JsString × JsString × ℤ) : Prop :=
  ∃ row ∈ s.invitations, row.invitationId = entry.1 ∧ row.status = .accepted entry.2.2 entry.2.1

variable {history : List (JsString × JsString × ℤ)}

/-- A step of the tables with the acceptances that it makes: nothing happens, or a command
succeeds. -/
theorem settle_cases (timestamp : JsString → Option ℤ) (toLowerCase : JsString → JsString)
    (s : Collaboration) (command : Command) :
    settle timestamp toLowerCase s command = s ∧
        acceptances timestamp toLowerCase s command = [] ∨
      CollaborationStep toLowerCase s (settle timestamp toLowerCase s command) command ∧
        acceptances timestamp toLowerCase s command = command.acceptance.toList := by
  rw [settle, acceptances]
  cases h : execute timestamp toLowerCase s command with
  | error e => exact .inl ⟨rfl, rfl⟩
  | ok t => exact .inr ⟨collaborationStep_of_execute h, rfl⟩

/-- Every state of a run keeps what the tables keep. -/
theorem Sound.run (hsound : Sound s) (hrun : Run timestamp toLowerCase s history t) : Sound t := by
  induction hrun with
  | start => exact hsound
  | @step _ t _ command ih =>
    rcases settle_cases timestamp toLowerCase t command with ⟨heq, -⟩ | ⟨hstep, -⟩
    · rw [heq]
      exact ih
    · exact ih.step hstep

/-- The users of a run are those of its start. -/
theorem users_of_run (hrun : Run timestamp toLowerCase s history t) : t.users = s.users := by
  induction hrun with
  | start => rfl
  | @step _ t _ command ih =>
    rcases settle_cases timestamp toLowerCase t command with ⟨heq, -⟩ | ⟨hstep, -⟩
    · rw [heq]
      exact ih
    · exact hstep.users.trans ih

/-- A row that was closed is not pending. -/
theorem Closes.not_pending {users : List JsString} {row next : Invitation}
    (h : Closes users row next) : next.status ≠ .pending := by
  obtain ⟨-, ⟨_, _, _, _, _, rfl⟩ | ⟨_, rfl⟩⟩ := h
  · rintro ⟨⟩
  · rintro ⟨⟩

/-- From tables that are sound, every run leads to tables that are sound, and each
invitation is there as it was, or it was pending and has been closed once and stayed so. -/
theorem invitations_of_run (hsound : Sound s) (hrun : Run timestamp toLowerCase s history t) :
    Sound t ∧ ∀ row ∈ s.invitations, ∃ next ∈ t.invitations,
      next.invitationId = row.invitationId ∧ (next = row ∨ Closes s.users row next) := by
  refine ⟨hsound.run hrun, fun row hrow => ?_⟩
  have hlife : ∃ next ∈ t.invitations, next = row ∨ Closes s.users row next := by
    induction hrun with
    | start => exact ⟨row, hrow, .inl rfl⟩
    | @step _ t hbefore command ih =>
      obtain ⟨next, hnext, hlife⟩ := ih
      rcases settle_cases timestamp toLowerCase t command with ⟨heq, -⟩ | ⟨hstep, -⟩
      · rw [heq]
        exact ⟨next, hnext, hlife⟩
      · obtain ⟨last, hlast, rfl | hcloses⟩ :=
          (hsound.run hbefore).exists_next hstep.invitations hnext
        · exact ⟨last, hlast, hlife⟩
        · rcases hlife with rfl | hclosed
          · exact ⟨last, hlast, .inr (users_of_run hbefore ▸ hcloses)⟩
          · exact absurd hcloses.1 hclosed.not_pending
  obtain ⟨next, hnext, rfl | hcloses⟩ := hlife
  · exact ⟨next, hnext, rfl, .inl rfl⟩
  · refine ⟨next, hnext, ?_, .inr hcloses⟩
    obtain ⟨-, ⟨_, _, _, _, _, rfl⟩ | ⟨_, rfl⟩⟩ := hcloses
    · rfl
    · rfl

/-- Where carol accepts, her invitation is closed and stays so. -/
theorem invitations_of_run_acme :
    Sound (settle (fun _ => none) id acmeInvites carolAccepts) ∧
      ∀ row ∈ acmeInvites.invitations,
        ∃ next ∈ (settle (fun _ => none) id acmeInvites carolAccepts).invitations,
          next.invitationId = row.invitationId ∧
            (next = row ∨ Closes acmeInvites.users row next) :=
  invitations_of_run sound_acmeInvites (.step .start carolAccepts)

/-- What is accepted after a command was accepted before it, or the command accepts it. -/
theorem acceptedAs_of_step (h : InvitationsStep toLowerCase s t command)
    {entry : JsString × JsString × ℤ} (haccepted : AcceptedAs t entry) :
    AcceptedAs s entry ∨ command.acceptance = some entry := by
  obtain ⟨next, hnext, hid, hstatus⟩ := haccepted
  cases h with
  | kept h =>
    rw [h] at hnext
    exact .inl ⟨next, hnext, hid, hstatus⟩
  | created h _ hpending =>
    rw [h] at hnext
    rcases List.mem_append.mp hnext with hnext | hnext
    · exact .inl ⟨next, hnext, hid, hstatus⟩
    · rw [List.mem_singleton.mp hnext, hpending] at hstatus
      cases hstatus
  | revoked h =>
    rw [h] at hnext
    obtain ⟨old, hold, rfl⟩ := Table.mem_update.mp hnext
    split at hstatus
    · cases hstatus
    · rename_i hcond
      rw [if_neg hcond] at hid
      exact .inl ⟨old, hold, hid, hstatus⟩
  | accepted h hcommand hstored =>
    rw [h] at hnext
    obtain ⟨old, hold, rfl⟩ := Table.mem_update.mp hnext
    split at hstatus
    · rename_i hcond
      rw [if_pos hcond] at hid
      obtain ⟨hsame, -⟩ := of_decide_eq_true hcond
      obtain ⟨hat, hactor⟩ := InvitationStatus.accepted.inj hstatus
      rw [hcommand, ← hsame, hat, hactor]
      exact .inr (congrArg some (Prod.ext hid rfl))
    · rename_i hcond
      rw [if_neg hcond] at hid
      exact .inl ⟨old, hold, hid, hstatus⟩

/-- What a command accepts was pending before it and is accepted after it. -/
theorem Sound.acceptedAs_of_acceptance (hsound : Sound s)
    (h : InvitationsStep toLowerCase s t command) {entry : JsString × JsString × ℤ}
    (hcommand : command.acceptance = some entry) :
    AcceptedAs t entry ∧ ∀ other, other.1 = entry.1 → ¬ AcceptedAs s other := by
  cases h with
  | kept _ hnone => cases hnone.symm.trans hcommand
  | created _ hnone => cases hnone.symm.trans hcommand
  | revoked _ hnone => cases hnone.symm.trans hcommand
  | accepted h hsome hstored _ haccepts =>
    obtain rfl := Option.some.inj (hsome.symm.trans hcommand)
    constructor
    · rw [AcceptedAs, h]
      exact ⟨_, Table.mem_update_of_cond hstored
        (decide_eq_true ⟨rfl, haccepts.pending, haccepts.inTime⟩), rfl, rfl⟩
    · rintro other hother ⟨row, hrow, hid, hstatus⟩
      obtain rfl := hsound.ids.eq hrow hstored (hid.trans hother)
      rw [haccepts.pending] at hstatus
      cases hstatus

/-- What was accepted stays accepted. -/
theorem Sound.acceptedAs_mono (hsound : Sound s) (h : InvitationsStep toLowerCase s t command)
    {entry : JsString × JsString × ℤ} (haccepted : AcceptedAs s entry) : AcceptedAs t entry := by
  obtain ⟨row, hrow, hid, hstatus⟩ := haccepted
  obtain ⟨next, hnext, rfl | hcloses⟩ := hsound.exists_next h hrow
  · exact ⟨next, hnext, hid, hstatus⟩
  · cases hcloses.1.symm.trans hstatus

/-- From tables that are sound, the invitations that are accepted in a state of a run are
those of the start and those that its commands have accepted, and no invitation is accepted
by two commands or by one after it was accepted at the start. -/
theorem accepted_once (hsound : Sound s) (hrun : Run timestamp toLowerCase s history t) :
    (∀ entry, AcceptedAs t entry ↔ AcceptedAs s entry ∨ entry ∈ history) ∧
      (history.map Prod.fst).Nodup ∧
      ∀ entry ∈ history, ∀ other, other.1 = entry.1 → ¬ AcceptedAs s other := by
  induction hrun with
  | start => exact ⟨by simp, List.nodup_nil, by simp⟩
  | @step history t hbefore command ih =>
    obtain ⟨hiff, hnodup, hfresh⟩ := ih
    rcases settle_cases timestamp toLowerCase t command with ⟨heq, hnone⟩ | ⟨hstep, hsome⟩
    · rw [heq, hnone, List.append_nil]
      exact ⟨hiff, hnodup, hfresh⟩
    · rw [hsome]
      have ht := hsound.run hbefore
      cases hcommand : command.acceptance with
      | none =>
        rw [Option.toList_none, List.append_nil]
        refine ⟨fun entry => ?_, hnodup, hfresh⟩
        rw [← hiff]
        constructor
        · intro haccepted
          rcases acceptedAs_of_step hstep.invitations haccepted with hold | hnew
          · exact hold
          · cases hcommand.symm.trans hnew
        · exact ht.acceptedAs_mono hstep.invitations
      | some accepted =>
        obtain ⟨hnew, hpending⟩ := ht.acceptedAs_of_acceptance hstep.invitations hcommand
        rw [Option.toList_some]
        refine ⟨fun entry => ?_, ?_, ?_⟩
        · rw [List.mem_append, List.mem_singleton, ← or_assoc, ← hiff]
          constructor
          · intro haccepted
            rcases acceptedAs_of_step hstep.invitations haccepted with hold | hsame
            · exact .inl hold
            · exact .inr (Option.some.inj (hsame.symm.trans hcommand))
          · rintro (hold | rfl)
            · exact ht.acceptedAs_mono hstep.invitations hold
            · exact hnew
        · rw [List.map_append, List.map_singleton, List.nodup_append]
          refine ⟨hnodup, List.nodup_singleton _, fun id hid other hother hsame => ?_⟩
          obtain ⟨entry, hentry, rfl⟩ := List.mem_map.mp hid
          refine hpending entry (hsame.trans (List.mem_singleton.mp hother)) ?_
          exact (hiff entry).mpr (.inr hentry)
        · intro entry hentry other hother haccepted
          rcases List.mem_append.mp hentry with hentry | hentry
          · exact hfresh entry hentry other hother haccepted
          · rw [List.mem_singleton.mp hentry] at hother
            exact hpending other hother ((hiff other).mpr (.inl haccepted))

/-- Where carol accepts, her invitation is accepted. -/
theorem accepted_once_acme :
    AcceptedAs (settle (fun _ => none) id acmeInvites carolAccepts)
      (js "i1", js "carol", 5) :=
  ((accepted_once sound_acmeInvites (.step .start carolAccepts)).1 _).mpr (.inr (by decide))

/-! ## When an acceptance succeeds -/

/-- There is room for the authority that an invitation gives: the actor has a row that is
written over, or no row has the name of the new one. -/
def HasRoom (s : Collaboration) (row : Invitation) (actorId rowId : JsString) : Prop :=
  match row.targetProject with
  | none => (∃ member ∈ s.memberships.rows, member.place = (row.namespaceId, ⟨.human, actorId⟩)) ∨
      ∀ member ∈ s.memberships.rows, member.membershipId ≠ rowId
  | some projectId => (∃ grant ∈ s.grants, grant.place = (projectId, ⟨.human, actorId⟩)) ∨
      ∀ grant ∈ s.grants, grant.grantId ≠ rowId

/-- A member can be written exactly when its row or its name is there to be used. -/
theorem Memberships.exists_upsert_iff {members : Memberships} {principal : Principal}
    {role : MemberRole} {membershipId : JsString} {now : ℤ} :
    (∃ next, members.upsert namespaceId principal role membershipId now = .ok next) ↔
      (∃ member ∈ members.rows, member.place = (namespaceId, principal)) ∨
        ∀ member ∈ members.rows, member.membershipId ≠ membershipId := by
  simp only [Memberships.upsert]
  constructor
  · rintro ⟨next, h⟩
    split at h
    · split at h
      · rename_i hid
        exact .inr (Table.hasKey_eq_false_iff.mp hid)
      · cases h
    · rename_i htaken
      exact .inl (Table.hasKey_eq_true_iff.mp (Bool.not_eq_false _ ▸ htaken))
  · intro hroom
    split
    · rename_i hplace
      rw [dif_pos]
      · exact ⟨_, rfl⟩
      · rcases hroom with ⟨member, hmember, hsame⟩ | hid
        · exact absurd hsame (Table.hasKey_eq_false_iff.mp hplace member hmember)
        · exact Table.hasKey_eq_false_iff.mpr hid
    · exact ⟨_, rfl⟩

/-- A guest can be written exactly when its row or its name is there to be used. -/
theorem exists_writtenGrants_iff {grants : List ProjectGrant} {row : ProjectGrant} :
    (∃ written, writtenGrants grants row = .ok written) ↔
      (∃ grant ∈ grants, grant.place = row.place) ∨
        ∀ grant ∈ grants, grant.grantId ≠ row.grantId := by
  have hids : Table.hasKey ProjectGrant.grantId row.grantId grants = false ↔
      ∀ grant ∈ grants, grant.grantId ≠ row.grantId := Table.hasKey_eq_false_iff
  rw [← Table.hasKey_eq_true_iff, ← hids]
  simp only [writtenGrants]
  constructor
  · rintro ⟨written, h⟩
    split at h
    · rename_i htaken
      exact .inl htaken
    · split at h
      · cases h
      · rename_i hid
        exact .inr (Bool.not_eq_true _ ▸ hid)
  · rintro (htaken | hid)
    · exact ⟨_, if_pos htaken⟩
    · split
      · exact ⟨_, rfl⟩
      · exact ⟨_, if_neg (by rw [hid]; exact Bool.false_ne_true)⟩

/-- In tables that are sound, the authority of an invitation can be written exactly when
there is room for it. -/
theorem Sound.exists_materialize_iff (hsound : Sound s) {row : Invitation}
    (hrow : row ∈ s.invitations) {actorId rowId : JsString} {now : ℤ} :
    (∃ t, materialize timestamp s row actorId rowId now = .ok t) ↔ HasRoom s row actorId rowId := by
  rw [HasRoom]
  cases htarget : row.targetProject with
  | none =>
    have hupsert : (∃ next, s.memberships.upsert row.namespaceId ⟨.human, actorId⟩ row.role rowId
        now = .ok next) ↔ _ := Memberships.exists_upsert_iff
    refine Iff.trans ?_ hupsert
    simp only [materialize, htarget]
    constructor
    · rintro ⟨t, h⟩
      obtain ⟨members, hmembers, -⟩ := bind_eq_ok_iff.mp h
      exact ⟨members, hmembers⟩
    · rintro ⟨members, hmembers⟩
      exact ⟨_, bind_eq_ok_iff.mpr ⟨members, hmembers, rfl⟩⟩
  | some projectId =>
    have hproject : (projectId, row.namespaceId) ∈ s.projects :=
      hsound.targets row hrow projectId (Option.eq_some_of_filter_eq_some htarget)
    have hwrite : (∃ grants, writtenGrants s.grants ⟨rowId, projectId, row.namespaceId,
        ⟨.human, actorId⟩, row.role, .active, now, now, none⟩ = .ok grants) ↔ _ :=
      exists_writtenGrants_iff
    refine Iff.trans ?_ hwrite
    simp only [materialize, htarget]
    constructor
    · rintro ⟨t, h⟩
      obtain ⟨expires, grants, hexpires, -, hgrants, -⟩ := upsertProjectGrant_eq_ok h
      obtain rfl := Except.ok.inj hexpires
      exact ⟨grants, hgrants⟩
    · rintro ⟨grants, hgrants⟩
      refine ⟨_, bind_eq_ok_iff.mpr ⟨none, rfl, refuse_eq_ok_iff.mpr ⟨not_not.mpr hproject,
        bind_eq_ok_iff.mpr ⟨grants, hgrants, refuse_eq_ok_iff.mpr ⟨?_, rfl⟩⟩⟩⟩⟩
      -- The guest that was written has no expiry, so that none lies before its row.
      rintro ⟨grant, hgrant, hplace, expires, hexpires, -⟩
      rcases mem_writtenGrants hgrants hgrant with ⟨-, hother⟩ | ⟨-, -, -, -, hnone⟩
      · exact hother hplace
      · rw [hnone] at hexpires
        cases hexpires

/-- In tables that are sound, an acceptance succeeds exactly when the invitation is one to the
namespace that was read, it lets the user through and there is room for the authority that it
gives; then this is written with it, and the other invitations are those of before. -/
theorem acceptance_exact (hsound : Sound s) {row : Invitation} (hrow : row ∈ s.invitations)
    {actorId rowId : JsString} {verifiedEmails : List JsString} {evaluatedAt now : ℤ} :
    ((∃ t, execute timestamp toLowerCase s (.invitationAccept namespaceId row.invitationId actorId
        verifiedEmails rowId evaluatedAt now) = .ok t) ↔
      row.namespaceId = namespaceId ∧ namespaceId ∈ s.namespaces ∧ actorId ∈ s.users ∧
        Accepts toLowerCase row actorId verifiedEmails evaluatedAt ∧
        HasRoom s row actorId rowId) ∧
    ∀ t, execute timestamp toLowerCase s (.invitationAccept namespaceId row.invitationId actorId
        verifiedEmails rowId evaluatedAt now) = .ok t →
      row.acceptedBy actorId evaluatedAt ∈ t.invitations ∧
        (∀ other ∈ s.invitations, other ≠ row → other ∈ t.invitations) ∧
        Materialized t row actorId := by
  have hfind : findInvitation s row.invitationId = some row := hsound.ids.find?_eq hrow
  constructor
  · constructor
    · rintro ⟨t, h⟩
      obtain ⟨found, hfound, h⟩ := bind_eq_ok_iff.mp h
      obtain ⟨written, hwritten, haccept⟩ := bind_eq_ok_iff.mp h
      obtain ⟨⟨hlock, hsame, hnamespace⟩, haccepts⟩ := acceptableInvitation_eq_ok_iff.mp hfound
      obtain rfl := Option.some.inj (hsame.symm.trans hfind)
      obtain ⟨-, husers, -, -⟩ := materialize_eq_ok hwritten
      obtain ⟨-, huser, -⟩ := acceptInvitation_eq_ok_iff.mp haccept
      exact ⟨hnamespace, hlock, husers ▸ huser, haccepts,
        (hsound.exists_materialize_iff hrow).mp ⟨written, hwritten⟩⟩
    · rintro ⟨hnamespace, hlock, huser, haccepts, hroom⟩
      obtain ⟨written, hwritten⟩ : ∃ written, materialize timestamp s row actorId rowId now =
          .ok written := (hsound.exists_materialize_iff hrow).mpr hroom
      obtain ⟨hinvitations, husers, -, -⟩ := materialize_eq_ok hwritten
      refine ⟨_, bind_eq_ok_iff.mpr ⟨row, acceptableInvitation_eq_ok_iff.mpr
        ⟨⟨hlock, hfind, hnamespace⟩, haccepts⟩, bind_eq_ok_iff.mpr ⟨written, hwritten,
          acceptInvitation_eq_ok_iff.mpr ⟨⟨row, hinvitations ▸ hrow, ?_⟩, husers ▸ huser, rfl⟩⟩⟩⟩
      exact decide_eq_true ⟨rfl, haccepts.pending, haccepts.inTime⟩
  · intro t h
    obtain ⟨found, hfound, hid, -, haccepts, hinvitations, -, -, hmaterialized⟩ :=
      acceptStoredInvitation_eq_ok h
    obtain rfl := hsound.ids.eq hfound hrow hid
    rw [hinvitations]
    refine ⟨Table.mem_update_of_cond hrow
      (decide_eq_true ⟨rfl, haccepts.pending, haccepts.inTime⟩),
      fun other hother hne => Table.mem_update_of_not hother (decide_eq_false ?_), hmaterialized⟩
    rintro ⟨hsame, -⟩
    exact hne (hsound.ids.eq hother hrow hsame)

/-- Carol may accept her invitation. -/
theorem acceptance_exact_acme :
    ∃ t, execute (fun _ => none) id acmeInvites carolAccepts = .ok t :=
  (acceptance_exact sound_acmeInvites List.mem_cons_self).1.mpr
    ⟨rfl, by decide, by decide,
      ⟨rfl, by decide, by rintro _ ⟨⟩; rfl, by rintro _ ⟨⟩, by rintro ⟨⟨⟩, -⟩⟩, .inr (by decide)⟩

end T3x.Identity
