import T3x.Identity.Commands
import T3x.Js.Agree
import Mathlib.Logic.Relation

/-!
# The last owner of a namespace

Revoking a member and passing on the ownership leave every namespace an active human
owner. Writing a membership does not look for one: a member that is added or an
invitation that is accepted writes over the row of the principal, also when it is that
of the last owner. A run in which this does not happen keeps an owner in every
namespace.
-/

namespace T3x.Identity

open Js

/-! ## Owners -/

/-- Some active person owns the namespace. -/
def Memberships.Owned (members : Memberships) (namespaceId : JsString) : Prop :=
  ∃ row ∈ members.rows, row.owns namespaceId = true

/-- The principal is the only active person that owns the namespace. -/
def Memberships.LastOwner (members : Memberships) (namespaceId : JsString)
    (principal : Principal) : Prop :=
  (∃ row ∈ members.rows, row.owns namespaceId = true ∧ row.principal = principal) ∧
    ∀ row ∈ members.rows, row.owns namespaceId = true → row.principal = principal

/-- Every namespace has at least one active human owner. -/
def Collaboration.EveryNamespaceOwned (s : Collaboration) : Prop :=
  ∀ namespaceId ∈ s.namespaces, 1 ≤ s.memberships.countActiveHumanOwners namespaceId

variable {members next : Memberships} {namespaceId other : JsString} {principal : Principal}
  {row : Membership} {role : MemberRole} {membershipId : JsString} {now revokedAt updatedAt : ℤ}

/-- There is an owner exactly when at least one is counted. -/
theorem one_le_countActiveHumanOwners :
    1 ≤ members.countActiveHumanOwners namespaceId ↔ members.Owned namespaceId :=
  List.countP_pos_iff

/-- What an owner's row is like. -/
theorem Membership.owns_eq_true_iff : row.owns namespaceId = true ↔
    row.namespaceId = namespaceId ∧ row.status = .active ∧ row.role = .owner ∧
      row.principal.kind = .human := by
  simp [Membership.owns, Membership.isActiveHumanOwner]

/-- A row that an upsert has written is no owner's. -/
theorem Membership.owns_regranted : (row.regranted role now).owns namespaceId = false := by
  simp [Membership.owns, Membership.isActiveHumanOwner, Membership.regranted]

/-! ## Writing a membership -/

/-- After an upsert, the owners are those before it without the principal. -/
theorem Memberships.owned_upsert_iff
    (h : members.upsert namespaceId principal role membershipId now = .ok next) :
    next.Owned other ↔
      ∃ row ∈ members.rows, row.owns other = true ∧ row.place ≠ (namespaceId, principal) := by
  simp only [Memberships.upsert] at h
  split at h
  · rename_i hplace
    split at h
    · obtain rfl := Except.ok.inj h
      have hfree := Table.hasKey_eq_false_iff.mp hplace
      constructor
      · rintro ⟨row, hrow, howns⟩
        rcases List.mem_append.mp hrow with hrow | hrow
        · exact ⟨row, hrow, howns, hfree row hrow⟩
        · rw [List.mem_singleton.mp hrow, Membership.owns_eq_true_iff] at howns
          cases howns.2.2.1
      · rintro ⟨row, hrow, howns, -⟩
        exact ⟨row, List.mem_append_left _ hrow, howns⟩
    · cases h
  · obtain rfl := Except.ok.inj h
    constructor
    · rintro ⟨row, hrow, howns⟩
      obtain ⟨old, hold, rfl⟩ := Table.mem_update.mp hrow
      split at howns
      · rw [Membership.owns_regranted] at howns
        cases howns
      · rename_i hplace
        exact ⟨old, hold, howns, of_decide_eq_false (Bool.not_eq_true _ ▸ hplace)⟩
    · rintro ⟨row, hrow, howns, hplace⟩
      exact ⟨row, Table.mem_update_of_not hrow (decide_eq_false hplace), howns⟩

/-- An upsert takes the owner from a namespace exactly when it writes over the last one. -/
theorem Memberships.owned_upsert_iff_not_lastOwner (howned : members.Owned other)
    (h : members.upsert namespaceId principal role membershipId now = .ok next) :
    next.Owned other ↔ ¬ (namespaceId = other ∧ members.LastOwner other principal) := by
  rw [Memberships.owned_upsert_iff h]
  constructor
  · rintro ⟨row, hrow, howns, hplace⟩ ⟨rfl, -, hall⟩
    have hns := (Membership.owns_eq_true_iff.mp howns).1
    exact hplace (Prod.ext hns (hall row hrow howns))
  · intro hlast
    by_contra hnone
    push Not at hnone
    have hplace : ∀ row ∈ members.rows, row.owns other = true →
        namespaceId = other ∧ row.principal = principal := by
      intro row hrow howns
      have hplace := hnone row hrow howns
      have hns : row.namespaceId = namespaceId := congrArg Prod.fst hplace
      exact ⟨hns.symm.trans (Membership.owns_eq_true_iff.mp howns).1, congrArg Prod.snd hplace⟩
    obtain ⟨row, hrow, howns⟩ := howned
    exact hlast ⟨(hplace row hrow howns).1,
      ⟨row, hrow, howns, (hplace row hrow howns).2⟩,
      fun row hrow howns => (hplace row hrow howns).2⟩

/-! ## Revoking and passing on -/

/-- What is found is a row of the namespace with the name. -/
theorem Memberships.mem_of_find (h : members.find namespaceId membershipId = some row) :
    row ∈ members.rows ∧ row.namespaceId = namespaceId ∧ row.membershipId = membershipId := by
  have hcond := List.find?_some h
  rw [decide_eq_true_eq] at hcond
  exact ⟨List.mem_of_find?_eq_some h, hcond⟩

/-- Revoking a member that may be revoked leaves every owned namespace an owner. -/
theorem Memberships.owned_revoke (howned : members.Owned other)
    (hfind : members.find namespaceId membershipId = some row)
    (hallowed : assertOwnerMutationAllowed row (members.countActiveHumanOwners namespaceId) =
      .ok ()) : (members.revoke membershipId revokedAt).Owned other := by
  obtain ⟨hmem, hns, hid⟩ := Memberships.mem_of_find hfind
  have hkept : ∃ kept ∈ members.rows, kept.owns other = true ∧
      kept.membershipId ≠ membershipId := by
    by_cases htarget : row.owns other = true
    · -- The target is an owner: it may go because another one is counted.
      have hother := Membership.owns_eq_true_iff.mp htarget
      obtain rfl : namespaceId = other := hns.symm.trans hother.1
      have hcount : 1 < members.countActiveHumanOwners namespaceId := by
        by_contra hfew
        rw [assertOwnerMutationAllowed, if_pos] at hallowed
        · cases hallowed
        · simp only [Membership.owns, decide_eq_true_eq] at htarget
          exact ⟨htarget.2, by omega⟩
      exact members.ids.exists_other hcount membershipId
    · obtain ⟨owner, howner, howns⟩ := howned
      refine ⟨owner, howner, howns, fun hsame => htarget ?_⟩
      rw [members.ids.eq hmem howner (hid.trans hsame.symm)]
      exact howns
  obtain ⟨kept, hmem', howns, hne⟩ := hkept
  refine ⟨kept, Table.mem_update_of_not hmem' ?_, howns⟩
  simp [hne]

/-- What a plan for a transfer says about the two memberships. -/
theorem buildNamespaceOwnershipTransferPlan_eq_ok {currentOwner target : Membership}
    {plan : OwnershipTransferPlan}
    (h : buildNamespaceOwnershipTransferPlan namespaceId currentOwner target = .ok plan) :
    plan = ⟨namespaceId, currentOwner.membershipId, target.membershipId⟩ ∧
      currentOwner.membershipId ≠ target.membershipId ∧ target.namespaceId = namespaceId ∧
      target.status = .active ∧ target.role ≠ .owner ∧ target.principal.kind = .human := by
  rw [buildNamespaceOwnershipTransferPlan] at h
  split at h
  · cases h
  · split at h
    · cases h
    · split at h
      · cases h
      · split at h
        · cases h
        · rename_i hns hid _ htarget
          push Not at hns htarget
          exact ⟨(Except.ok.inj h).symm, hid, hns.2, htarget⟩

/-- Passing on the ownership leaves every owned namespace an owner. -/
theorem Memberships.owned_transfer {plan : OwnershipTransferPlan} {currentOwner target : Membership}
    (howned : members.Owned other) (htarget : target ∈ members.rows)
    (hplan : buildNamespaceOwnershipTransferPlan namespaceId currentOwner target = .ok plan)
    (h : members.applyOwnershipTransfer plan updatedAt = .ok next) : next.Owned other := by
  obtain ⟨rfl, hne, hns, hactive, hrole, hhuman⟩ := buildNamespaceOwnershipTransferPlan_eq_ok hplan
  simp only [Memberships.applyOwnershipTransfer] at h
  split at h
  · obtain rfl := Except.ok.inj h
    by_cases hother : namespaceId = other
    · -- The target's row is selected and becomes an owner's.
      subst hother
      refine ⟨_, Table.mem_update_of_cond htarget ?_, ?_⟩
      · simp [OwnershipTransferPlan.selects, hns, hactive, hhuman, hrole]
      · simp [OwnershipTransferPlan.rewrite, Membership.owns_eq_true_iff, hns, hactive, hhuman,
          hne.symm]
    · obtain ⟨owner, howner, howns⟩ := howned
      refine ⟨owner, Table.mem_update_of_not howner ?_, howns⟩
      have := (Membership.owns_eq_true_iff.mp howns).1
      simp [OwnershipTransferPlan.selects, this, Ne.symm hother]
  · cases h

/-! ## What a command does to the memberships -/

variable (timestamp : JsString → Option ℤ) (toLowerCase : JsString → JsString)

/-- The namespaces and the memberships are those of before. -/
def Frames (s t : Collaboration) : Prop :=
  t.namespaces = s.namespaces ∧ t.memberships = s.memberships

/-- The command writes the membership of the principal in the namespace: it adds a
member, or it accepts an invitation to the namespace. -/
def WritesMember (s : Collaboration) (namespaceId : JsString) (principal : Principal) :
    Command → Prop
  | .memberUpsert namespaceId' principal' _ _ _ =>
    namespaceId ∈ s.namespaces ∧ namespaceId' = namespaceId ∧ principal' = principal
  | .invitationAccept readId invitationId actorId verifiedEmails _ evaluatedAt _ =>
    ∃ invitation, acceptableInvitation toLowerCase s readId invitationId actorId verifiedEmails
        evaluatedAt = .ok invitation ∧ invitation.targetProject = none ∧ actorId ∈ s.users ∧
      invitation.namespaceId = namespaceId ∧ ⟨.human, actorId⟩ = principal
  | _ => False

/-- The command writes over the membership of the last owner of a namespace. -/
def DemotesLastOwner (s : Collaboration) (command : Command) : Prop :=
  ∃ namespaceId ∈ s.namespaces, ∃ principal,
    WritesMember toLowerCase s namespaceId principal command ∧
      s.memberships.LastOwner namespaceId principal

/-- What a command that succeeds does to the memberships. -/
inductive MembershipsStep (s : Collaboration) (command : Command) : Memberships → Prop where
  | kept : MembershipsStep s command s.memberships
  | written {namespaceId : JsString} {principal : Principal} {role : MemberRole}
      {membershipId : JsString} {now : ℤ} {next : Memberships}
      (hwrites : WritesMember toLowerCase s namespaceId principal command)
      (hupsert : s.memberships.upsert namespaceId principal role membershipId now = .ok next) :
      MembershipsStep s command next
  | revoked {namespaceId membershipId : JsString} {row : Membership} {revokedAt : ℤ}
      (hfind : s.memberships.find namespaceId membershipId = some row)
      (hallowed : assertOwnerMutationAllowed row
        (s.memberships.countActiveHumanOwners namespaceId) = .ok ()) :
      MembershipsStep s command (s.memberships.revoke membershipId revokedAt)
  | passed {namespaceId : JsString} {currentOwner target : Membership}
      {plan : OwnershipTransferPlan} {updatedAt : ℤ} {next : Memberships}
      (htarget : target ∈ s.memberships.rows)
      (hplan : buildNamespaceOwnershipTransferPlan namespaceId currentOwner target = .ok plan)
      (happly : s.memberships.applyOwnershipTransfer plan updatedAt = .ok next) :
      MembershipsStep s command next

variable {timestamp toLowerCase} {s t : Collaboration} {command : Command}

/-- A namespace that could be locked is there. -/
theorem lockNamespace_eq_ok_iff {u : Unit} :
    lockNamespace s namespaceId = .ok u ↔ namespaceId ∈ s.namespaces := by
  rw [lockNamespace]
  split <;> simp [*]

/-- Writing a grant leaves the members alone. -/
theorem frames_upsertProjectGrant {projectId grantId : JsString} {expiresAt : Option JsString}
    (h : upsertProjectGrant timestamp s namespaceId projectId principal role expiresAt grantId now =
      .ok t) : Frames s t := by
  rw [upsertProjectGrant] at h
  obtain ⟨expires, -, h⟩ := bind_eq_ok_iff.mp h
  obtain ⟨-, h⟩ := refuse_eq_ok_iff.mp h
  obtain ⟨grants, -, h⟩ := bind_eq_ok_iff.mp h
  obtain ⟨-, h⟩ := refuse_eq_ok_iff.mp h
  obtain rfl := Except.ok.inj h
  exact ⟨rfl, rfl⟩

/-- Accepting an invitation leaves the members alone. -/
theorem frames_acceptInvitation {invitationId actorId : JsString}
    (h : acceptInvitation s invitationId actorId now = .ok t) : Frames s t := by
  rw [acceptInvitation] at h
  split at h
  · cases h
  · split at h
    · cases h
    · obtain rfl := Except.ok.inj h
      exact ⟨rfl, rfl⟩

/-- Only a user accepts an invitation. -/
theorem mem_users_of_acceptInvitation {invitationId actorId : JsString}
    (h : acceptInvitation s invitationId actorId now = .ok t) : actorId ∈ s.users := by
  rw [acceptInvitation] at h
  split at h
  · cases h
  · split at h
    · cases h
    · rename_i huser
      exact not_not.mp huser

/-- Revoking an invitation leaves the members alone. -/
theorem frames_revokeInvitation {invitationId : JsString}
    (h : revokeInvitation s invitationId now = .ok t) : Frames s t := by
  rw [revokeInvitation] at h
  split at h
  · obtain rfl := Except.ok.inj h
    exact ⟨rfl, rfl⟩
  · split at h
    · obtain rfl := Except.ok.inj h
      exact ⟨rfl, rfl⟩
    · cases h

/-- Creating an invitation leaves the members alone. -/
theorem frames_createInvitation {invitation : Invitation}
    (h : createInvitation toLowerCase s invitation = .ok t) : Frames s t := by
  rw [createInvitation] at h
  split at h
  · cases h
  · obtain rfl := Except.ok.inj h
    exact ⟨rfl, rfl⟩

/-- Moving a project leaves the members alone. -/
theorem frames_applyProjectTransfer {plan : ProjectTransferPlan}
    (h : applyProjectTransfer s plan = .ok t) : Frames s t := by
  rw [applyProjectTransfer] at h
  obtain ⟨-, h⟩ := refuse_eq_ok_iff.mp h
  obtain ⟨-, -, h⟩ := bind_eq_ok_iff.mp h
  obtain ⟨-, -, h⟩ := bind_eq_ok_iff.mp h
  obtain ⟨-, h⟩ := refuse_eq_ok_iff.mp h
  obtain ⟨-, h⟩ := refuse_eq_ok_iff.mp h
  obtain rfl := Except.ok.inj h
  exact ⟨rfl, rfl⟩

/-- Adding a member writes its membership. -/
theorem membershipsStep_upsertMember
    (h : upsertMember s namespaceId principal role membershipId now = .ok t) :
    t.namespaces = s.namespaces ∧ MembershipsStep toLowerCase s
      (.memberUpsert namespaceId principal role membershipId now) t.memberships := by
  rw [upsertMember] at h
  obtain ⟨_, hlock, h⟩ := bind_eq_ok_iff.mp h
  obtain ⟨next, hupsert, h⟩ := bind_eq_ok_iff.mp h
  obtain rfl := Except.ok.inj h
  exact ⟨rfl, .written ⟨lockNamespace_eq_ok_iff.mp hlock, rfl, rfl⟩ hupsert⟩

/-- Revoking a member that may be revoked revokes its membership. -/
theorem membershipsStep_revokeMember (h : revokeMember s namespaceId membershipId now = .ok t) :
    t.namespaces = s.namespaces ∧ MembershipsStep toLowerCase s command t.memberships := by
  rw [revokeMember] at h
  obtain ⟨-, -, h⟩ := bind_eq_ok_iff.mp h
  split at h
  · cases h
  · rename_i member hfind
    split at h
    · obtain rfl := Except.ok.inj h
      exact ⟨rfl, .kept⟩
    · obtain ⟨_, hallowed, h⟩ := bind_eq_ok_iff.mp h
      obtain rfl := Except.ok.inj h
      exact ⟨rfl, .revoked hfind hallowed⟩

/-- Passing on the ownership rewrites two memberships. -/
theorem membershipsStep_transferOwnership {currentOwnerId targetId : JsString}
    (h : transferOwnership s namespaceId currentOwnerId targetId now = .ok t) :
    t.namespaces = s.namespaces ∧ MembershipsStep toLowerCase s command t.memberships := by
  rw [transferOwnership] at h
  obtain ⟨-, -, h⟩ := bind_eq_ok_iff.mp h
  split at h
  · rename_i currentOwner target _ hfind
    obtain ⟨plan, hplan, h⟩ := bind_eq_ok_iff.mp h
    obtain ⟨next, happly, h⟩ := bind_eq_ok_iff.mp h
    obtain rfl := Except.ok.inj h
    exact ⟨rfl, .passed (Memberships.mem_of_find hfind).1 hplan happly⟩
  · cases h

/-- Accepting an invitation writes the membership if the invitation is to the namespace. -/
theorem membershipsStep_acceptStoredInvitation {invitationId actorId rowId : JsString}
    {verifiedEmails : List JsString} {evaluatedAt : ℤ}
    (h : acceptStoredInvitation timestamp toLowerCase s namespaceId invitationId actorId
      verifiedEmails rowId evaluatedAt now = .ok t) :
    t.namespaces = s.namespaces ∧ MembershipsStep toLowerCase s
      (.invitationAccept namespaceId invitationId actorId verifiedEmails rowId evaluatedAt now)
      t.memberships := by
  rw [acceptStoredInvitation] at h
  obtain ⟨invitation, hinvitation, h⟩ := bind_eq_ok_iff.mp h
  obtain ⟨written, hwritten, haccept⟩ := bind_eq_ok_iff.mp h
  obtain ⟨hnamespaces, hmemberships⟩ := frames_acceptInvitation haccept
  rw [hnamespaces, hmemberships]
  rw [materialize] at hwritten
  split at hwritten
  · rename_i htarget
    obtain ⟨next, hupsert, hwritten⟩ := bind_eq_ok_iff.mp hwritten
    obtain rfl := Except.ok.inj hwritten
    have huser := mem_users_of_acceptInvitation haccept
    exact ⟨rfl, .written ⟨invitation, hinvitation, htarget, huser, rfl, rfl⟩ hupsert⟩
  · obtain ⟨hnamespaces, hmemberships⟩ := frames_upsertProjectGrant hwritten
    rw [hnamespaces, hmemberships]
    exact ⟨rfl, .kept⟩

/-- Every command that succeeds keeps the namespaces and takes a step of the memberships. -/
theorem membershipsStep_of_execute (h : execute timestamp toLowerCase s command = .ok t) :
    t.namespaces = s.namespaces ∧ MembershipsStep toLowerCase s command t.memberships := by
  have hkept : Frames s t →
      t.namespaces = s.namespaces ∧ MembershipsStep toLowerCase s command t.memberships := by
    rintro ⟨hnamespaces, hmemberships⟩
    rw [hmemberships]
    exact ⟨hnamespaces, .kept⟩
  cases command with
  | memberUpsert => exact membershipsStep_upsertMember h
  | memberRevoke => exact membershipsStep_revokeMember h
  | ownershipTransfer => exact membershipsStep_transferOwnership h
  | invitationAccept => exact membershipsStep_acceptStoredInvitation h
  | guestGrant =>
    obtain ⟨-, -, h⟩ := bind_eq_ok_iff.mp h
    obtain ⟨-, -, h⟩ := bind_eq_ok_iff.mp h
    exact hkept (frames_upsertProjectGrant h)
  | guestRevoke =>
    obtain ⟨-, -, h⟩ := bind_eq_ok_iff.mp h
    split at h
    · cases h
    · split at h
      · obtain rfl := Except.ok.inj h
        exact hkept ⟨rfl, rfl⟩
      · obtain rfl := Except.ok.inj h
        exact hkept ⟨rfl, rfl⟩
  | projectTransfer =>
    obtain ⟨plan, -, h⟩ := bind_eq_ok_iff.mp h
    exact hkept (frames_applyProjectTransfer h)
  | invitationCreate =>
    obtain ⟨-, -, h⟩ := bind_eq_ok_iff.mp h
    obtain ⟨-, -, h⟩ := bind_eq_ok_iff.mp h
    obtain ⟨expires, -, h⟩ := bind_eq_ok_iff.mp h
    exact hkept (frames_createInvitation h)
  | invitationRevoke =>
    obtain ⟨current, -, h⟩ := bind_eq_ok_iff.mp h
    split at h
    · obtain rfl := Except.ok.inj h
      exact hkept ⟨rfl, rfl⟩
    · exact hkept (frames_revokeInvitation h)
  | invitationDecline =>
    obtain ⟨-, -, h⟩ := bind_eq_ok_iff.mp h
    exact hkept (frames_revokeInvitation h)

/-! ## Runs -/

/-- A command that does not write over the last owner of a namespace leaves every
namespace an owner. -/
theorem everyNamespaceOwned_settle (howned : s.EveryNamespaceOwned)
    (hspares : ¬ DemotesLastOwner toLowerCase s command) :
    (settle timestamp toLowerCase s command).EveryNamespaceOwned := by
  rw [settle]
  split
  · rename_i t h
    obtain ⟨hnamespaces, hstep⟩ := membershipsStep_of_execute h
    intro namespaceId hmem
    rw [hnamespaces] at hmem
    have hbefore := one_le_countActiveHumanOwners.mp (howned namespaceId hmem)
    rw [one_le_countActiveHumanOwners]
    generalize t.memberships = next at hstep
    cases hstep with
    | kept => exact hbefore
    | written hwrites hupsert =>
      rw [Memberships.owned_upsert_iff_not_lastOwner hbefore hupsert]
      rintro ⟨rfl, hlast⟩
      exact hspares ⟨_, hmem, _, hwrites, hlast⟩
    | revoked hfind hallowed => exact Memberships.owned_revoke hbefore hfind hallowed
    | passed htarget hplan happly => exact Memberships.owned_transfer hbefore htarget hplan happly
  · exact howned

/-- The row of the last owner is there to be written over. -/
theorem Memberships.exists_upsert_of_lastOwner (hlast : members.LastOwner namespaceId principal) :
    ∃ next, members.upsert namespaceId principal role membershipId now = .ok next := by
  obtain ⟨⟨row, hrow, howns, hprincipal⟩, -⟩ := hlast
  have hplace : row.place = (namespaceId, principal) :=
    Prod.ext (Membership.owns_eq_true_iff.mp howns).1 hprincipal
  simp only [Memberships.upsert]
  split
  · rename_i hfree
    exact absurd hplace (Table.hasKey_eq_false_iff.mp hfree row hrow)
  · exact ⟨_, rfl⟩

/-- What an invitation that may be accepted is like. -/
theorem acceptableInvitation_eq_ok {invitationId actorId : JsString}
    {verifiedEmails : List JsString} {evaluatedAt : ℤ} {invitation : Invitation}
    (h : acceptableInvitation toLowerCase s namespaceId invitationId actorId verifiedEmails
      evaluatedAt = .ok invitation) :
    invitation ∈ s.invitations ∧ invitation.status = .pending ∧
      evaluatedAt < invitation.expiresAt := by
  rw [acceptableInvitation] at h
  obtain ⟨found, hfound, h⟩ := bind_eq_ok_iff.mp h
  obtain ⟨_, hmay, h⟩ := bind_eq_ok_iff.mp h
  obtain rfl := Except.ok.inj h
  rw [lockedInvitation] at hfound
  obtain ⟨-, -, hfound⟩ := bind_eq_ok_iff.mp hfound
  rw [assertInvitationMayBeAccepted] at hmay
  split at hmay
  · cases hmay
  · rename_i hpending
    split at hmay
    · cases hmay
    · rename_i hexpired
      split at hfound
      · cases hfound
      · rename_i stored hstored
        obtain ⟨-, hfound⟩ := refuse_eq_ok_iff.mp hfound
        obtain rfl := Except.ok.inj hfound
        exact ⟨List.mem_of_find?_eq_some hstored, not_not.mp hpending, not_le.mp hexpired⟩

/-- A user may close an invitation that is pending and has not expired. -/
theorem exists_acceptInvitation {actorId : JsString} {invitation : Invitation}
    (hmem : invitation ∈ s.invitations) (hpending : invitation.status = .pending)
    (hexpires : now < invitation.expiresAt) (huser : actorId ∈ s.users) :
    ∃ t, acceptInvitation s invitation.invitationId actorId now = .ok t := by
  simp only [acceptInvitation]
  rw [if_neg, if_neg (not_not.mpr huser)]
  · exact ⟨_, rfl⟩
  · rw [Bool.not_eq_false, List.any_eq_true]
    exact ⟨invitation, hmem, decide_eq_true ⟨rfl, hpending, hexpires⟩⟩

/-- A command that writes over the last owner of a namespace succeeds in it. -/
theorem exists_execute_of_writesMember (hmem : namespaceId ∈ s.namespaces)
    (hwrites : WritesMember toLowerCase s namespaceId principal command)
    (hlast : s.memberships.LastOwner namespaceId principal) :
    ∃ t role membershipId now, execute timestamp toLowerCase s command = .ok t ∧
      t.namespaces = s.namespaces ∧
      s.memberships.upsert namespaceId principal role membershipId now = .ok t.memberships := by
  cases command with
  | memberUpsert namespaceId principal role membershipId now =>
    obtain ⟨-, rfl, rfl⟩ := hwrites
    obtain ⟨next, hnext⟩ := Memberships.exists_upsert_of_lastOwner hlast
    refine ⟨{ s with memberships := next }, role, membershipId, now, ?_, rfl, hnext⟩
    exact bind_eq_ok_iff.mpr ⟨(), lockNamespace_eq_ok_iff.mpr hmem,
      bind_eq_ok_iff.mpr ⟨next, hnext, rfl⟩⟩
  | invitationAccept readId invitationId actorId verifiedEmails rowId evaluatedAt now =>
    obtain ⟨invitation, hinvitation, htarget, huser, rfl, rfl⟩ := hwrites
    obtain ⟨next, hnext⟩ : ∃ next, s.memberships.upsert invitation.namespaceId ⟨.human, actorId⟩
        invitation.role rowId now = .ok next := Memberships.exists_upsert_of_lastOwner hlast
    obtain ⟨hstored, hpending, hexpires⟩ := acceptableInvitation_eq_ok hinvitation
    obtain ⟨t, ht⟩ : ∃ t, acceptInvitation { s with memberships := next } invitation.invitationId
        actorId evaluatedAt = .ok t := exists_acceptInvitation hstored hpending hexpires huser
    obtain ⟨hnamespaces, hmemberships⟩ := frames_acceptInvitation ht
    refine ⟨t, invitation.role, rowId, now, ?_, hnamespaces, hnext.trans (by rw [hmemberships])⟩
    refine bind_eq_ok_iff.mpr ⟨invitation, hinvitation,
      bind_eq_ok_iff.mpr ⟨{ s with memberships := next }, ?_, ht⟩⟩
    simp only [materialize, htarget]
    exact bind_eq_ok_iff.mpr ⟨next, hnext, rfl⟩
  | _ => exact hwrites.elim

/-- A command keeps an owner in every namespace exactly when it does not write over the
last owner of one. -/
theorem everyNamespaceOwned_settle_iff (howned : s.EveryNamespaceOwned) :
    (settle timestamp toLowerCase s command).EveryNamespaceOwned ↔
      ¬ DemotesLastOwner toLowerCase s command := by
  refine ⟨?_, everyNamespaceOwned_settle howned⟩
  rintro hafter ⟨namespaceId, hmem, principal, hwrites, hlast⟩
  obtain ⟨t, role, membershipId, now, hexecute, hnamespaces, hupsert⟩ :=
    exists_execute_of_writesMember hmem hwrites hlast
  rw [settle, hexecute] at hafter
  have howns := one_le_countActiveHumanOwners.mp (hafter namespaceId (hnamespaces ▸ hmem))
  have hbefore := one_le_countActiveHumanOwners.mp (howned namespaceId hmem)
  exact (Memberships.owned_upsert_iff_not_lastOwner hbefore hupsert).mp howns ⟨rfl, hlast⟩

/-- One command of a run in which none writes over the last owner of a namespace. -/
def SparingStep (timestamp : JsString → Option ℤ) (toLowerCase : JsString → JsString)
    (s t : Collaboration) : Prop :=
  ∃ command, ¬ DemotesLastOwner toLowerCase s command ∧ settle timestamp toLowerCase s command = t

/-- In a run from tables in which every namespace has an owner, in which no command
writes over the last owner of one, every namespace has an owner in every state; and
there every further command keeps it so exactly when it spares the last owners too. -/
theorem everyNamespaceOwned_of_run (howned : s.EveryNamespaceOwned)
    (hrun : Relation.ReflTransGen (SparingStep timestamp toLowerCase) s t) :
    t.EveryNamespaceOwned ∧
      ∀ command, (settle timestamp toLowerCase t command).EveryNamespaceOwned ↔
        ¬ DemotesLastOwner toLowerCase t command := by
  have hreached : t.EveryNamespaceOwned := by
    induction hrun with
    | refl => exact howned
    | tail _ hstep ih =>
      obtain ⟨command, hspares, rfl⟩ := hstep
      exact everyNamespaceOwned_settle ih hspares
  exact ⟨hreached, fun _ => everyNamespaceOwned_settle_iff hreached⟩

/-! ## One namespace -/

instance : Decidable s.EveryNamespaceOwned :=
  inferInstanceAs (Decidable (∀ namespaceId ∈ s.namespaces, _))

/-- A namespace that alice owns and bob helps to run. -/
def acme : Collaboration :=
  { users := [js "alice", js "bob"]
    namespaces := [js "acme"]
    projects := []
    memberships :=
      { rows :=
          [⟨js "m1", js "acme", ⟨.human, js "alice"⟩, .owner, .active, 0, 0⟩,
            ⟨js "m2", js "acme", ⟨.human, js "bob"⟩, .member .admin, .active, 0, 0⟩]
        ids := by decide
        places := by decide
        owners := by decide }
    grants := []
    invitations := [] }

/-- Alice passes the ownership on to bob. -/
theorem everyNamespaceOwned_of_transfer :
    (settle (fun _ => none) id acme
      (.ownershipTransfer (js "acme") (js "m1") (js "m2") 1)).EveryNamespaceOwned :=
  (everyNamespaceOwned_of_run (by decide)
    (.single ⟨_, by rintro ⟨_, _, _, hwrites, _⟩; exact hwrites, rfl⟩)).1

/-- Alice, who may manage the members, makes herself a viewer; no owner is left. -/
theorem memberUpsert_takes_last_owner :
    evaluateNamespaceAction ⟨.human, js "alice"⟩ (js "acme")
        (acme.memberships.findForPrincipal (js "acme") ⟨.human, js "alice"⟩) none
        .namespaceMembersManage = none ∧
      acme.EveryNamespaceOwned ∧
      ¬ (settle (fun _ => none) id acme (.memberUpsert (js "acme") ⟨.human, js "alice"⟩
        .viewer (js "m3") 1)).EveryNamespaceOwned := by
  decide

end T3x.Identity
