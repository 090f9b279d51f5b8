import T3x.Decision.Strengthening
import T3x.Storage.Memberships
import T3x.Storage.Turns

/-!
# The policy that applies to a request

A ref is bound to a policy. Where the facts of a request hold a bound workspace schema or
a generated proposal, an overlay is put on this policy: the validation is required, or the
report of a posture verifier is. An overlay only strengthens the policy of the ref.
-/

namespace Js.JsValue

/-- A member of an object is smaller than the object. -/
theorem sizeOf_member_obj (members : Record JsValue) (key : String) :
    sizeOf ((JsValue.obj members).member key) < sizeOf (JsValue.obj members) := by
  rw [JsValue.obj.sizeOf_spec, member]
  cases h : Record.get members (js key) with
  | none =>
    rw [Option.getD_none, JsValue.null.sizeOf_spec]
    cases members with
    | nil => decide
    | cons head members =>
      rw [List.cons.sizeOf_spec]
      omega
  | some found =>
    have hmem := List.sizeOf_lt_of_mem (Record.mem_of_get h)
    rw [Prod.mk.sizeOf_spec] at hmem
    rw [Option.getD_some]
    omega

/-- A member is no larger than the value. -/
theorem sizeOf_member_le (value : JsValue) (key : String) :
    sizeOf (value.member key) ≤ sizeOf value := by
  cases value with
  | obj members => exact (sizeOf_member_obj members key).le
  | _ => simp [member]

/-- Where a member is a text, the value is an object and its members are smaller. -/
theorem sizeOf_member_lt {value : JsValue} {key : String} {s : JsString}
    (h : value.member key = .str s) (key' : String) :
    sizeOf (value.member key') < sizeOf value := by
  cases value with
  | obj members => exact sizeOf_member_obj members key'
  | _ => cases h

/-- `{ ...value, [key]: written }`. -/
def withMember (value : JsValue) (key : String) (written : JsValue) : JsValue :=
  match value with
  | .obj members => .obj (Record.setOwn members (js key) written)
  | _ => .obj [(js key, written)]

/-- The member that was written is read. -/
@[simp] theorem member_withMember (value : JsValue) (key : String) (written : JsValue) :
    (value.withMember key written).member key = written := by
  cases value <;> simp [withMember, member, Record.get]

/-- The other members are those of before. -/
theorem member_withMember_of_ne {value : JsValue} {key key' : String} {written : JsValue}
    (h : js key ≠ js key') : (value.withMember key written).member key' = value.member key' := by
  cases value <;> simp [withMember, member, Record.get, h, Ne.symm h]

/-- There is a member of the name that was written. -/
@[simp] theorem hasMember_withMember (value : JsValue) (key : String) (written : JsValue) :
    (value.withMember key written).hasMember key = true := by
  cases value <;> simp [withMember, hasMember, Record.has, Record.get]

/-- Of the other names there are the members of before. -/
theorem hasMember_withMember_of_ne {value : JsValue} {key key' : String} {written : JsValue}
    (h : js key ≠ js key') :
    (value.withMember key written).hasMember key' = value.hasMember key' := by
  cases value <;> simp [withMember, hasMember, Record.has, Record.get, h, Ne.symm h]

end Js.JsValue

namespace T3x.Decision

open Js Transition
open Storage (TransitionRequestKind isTruthy)

/-! ## The overlays -/

/-- `GenerationPolicyIntegrityError`, `GenerationPolicyIncompatibleError` and what is thrown
where the facts or an overlay are read. -/
inductive PolicyResolutionError where
  | integrity (message : JsString)
  | incompatible (message : JsString)
  | protocol (error : ProtocolError)
  | review (message : JsString)
  | typeError

/-- The policy of a ref with the resource that names it. -/
structure TransitionPolicyBinding where
  /-- The policy. -/
  policy : AcceptancePolicy
  /-- The resource. -/
  resource : JsValue

/-- `ApplicableTransitionPolicy['mode']`. -/
inductive PolicyMode where
  | refPolicy
  | generationOverlay
  | workspaceSchemaOverlay
  deriving DecidableEq

/-- `ApplicableTransitionPolicy`. -/
structure ApplicableTransitionPolicy where
  /-- The policy. -/
  policy : AcceptancePolicy
  /-- The resource that names it. -/
  resource : JsValue
  /-- What was put on the policy of the ref. -/
  mode : PolicyMode
  /-- The resource that names the policy of the ref. -/
  refPolicyResource : JsValue

/-- What a proposal generation preparation says about the policy. -/
structure ProposalGenerationPreparation where
  /-- The name of its profile. -/
  profileId : JsString

/-- What a review of a workspace schema says about the policy. -/
structure WorkspaceSchemaReview where
  /-- The status of the draft is `bound`. -/
  draftIsBound : Bool
  /-- `isSchemaOnlyWorkspaceReview(review)`. -/
  isSchemaOnly : Bool

/-- `PROPOSAL_GENERATION_PREPARATION_SCHEMA`. -/
def proposalGenerationPreparationSchema : JsString :=
  js "t3x.dev/proposal-generation-preparation/v1"

/-- `PROPOSAL_POSTURE_VERIFIER_ACTOR`. -/
def proposalPostureVerifierActor : JsValue :=
  .obj [(js "kind", .str (js "service")),
    (js "id", .str (js "service:t3x-proposal-posture-verifier"))]

/-- `PROPOSAL_POSTURE_VERIFIER_TOOL`. -/
def proposalPostureVerifierTool : JsValue :=
  .obj [(js "name", .str (js "@t3x-dev/core/proposal-generation-posture")),
    (js "version", .str (js "1"))]

/-- `{ mode: 'one_of', values: [value] }`. -/
def onlyOne (value : JsValue) : JsValue :=
  .obj [(js "mode", .str (js "one_of")), (js "values", .arr [value])]

section

variable (sha256 : List UInt8 → JsString)

/-- `canonicalResource(uri, mediaType, value)`. -/
def canonicalResource (uri mediaType : JsString) (value : JsValue) :
    Except ProtocolError JsValue := do
  let canonical ← canonicalizeProtocolValue value
  return .obj [(js "uri", .str uri), (js "mediaType", .str mediaType),
    (js "digest", .str (js "sha256:" ++ sha256 (encodeUtf8 canonical)))]

/-- `PROPOSAL_POSTURE_VERIFIER_WORKFLOW`. -/
def proposalPostureVerifierWorkflow : Except ProtocolError JsValue :=
  canonicalResource sha256 (js "t3x://runner-workflows/proposal-generation-posture/v1")
    (js "application/vnd.t3x.runner-workflow+json")
    (.obj [(js "schema", .str (js "t3x.dev/runner-workflow/v1")),
      (js "version", .num (countNumber 1)), (js "name", .str (js "proposal-generation-posture")),
      (js "inputManifestSchema", .str proposalGenerationPreparationSchema),
      (js "verifier", proposalPostureVerifierTool)])

/-- `PROPOSAL_POSTURE_VERIFIER_ENVIRONMENT`. -/
def proposalPostureVerifierEnvironment : Except ProtocolError JsValue :=
  canonicalResource sha256 (js "t3x://runner-environments/native-proposal-posture/v1")
    (js "application/vnd.t3x.runner-environment+json")
    (.obj [(js "schema", .str (js "t3x.dev/runner-environment/v1")),
      (js "version", .num (countNumber 1)), (js "runtime", .str (js "t3x-native")),
      (js "network", .str (js "not_required"))])

/-- The rule for runners that the overlay of a generated proposal puts on a policy. -/
def postureRule : Except ProtocolError JsValue := do
  let workflow ← proposalPostureVerifierWorkflow sha256
  let environment ← proposalPostureVerifierEnvironment sha256
  return .obj [(js "requirement", .str (js "required")),
    (js "issuers", onlyOne proposalPostureVerifierActor),
    (js "tools", onlyOne proposalPostureVerifierTool),
    (js "workflows", onlyOne workflow), (js "environments", onlyOne environment)]

/-- `createAcceptancePolicyResource(input)`. -/
def createAcceptancePolicyResource (policy : JsValue) (uri : JsString) :
    Except ProtocolError TransitionPolicyBinding := do
  let parsed ← parseAcceptancePolicy policy
  if uri = [] then
    throw (schemaError (js "Acceptance policy URI must be non-empty") (js "$.uri"))
  let digest ← acceptancePolicyDigest sha256 parsed
  return ⟨parsed, .obj [(js "uri", .str uri), (js "mediaType", .str acceptancePolicyMediaType),
    (js "digest", .str digest)]⟩

/-- `{ ...policy, checks, override }`. -/
def overlay (policy : AcceptancePolicy) (checks override : JsValue) : JsValue :=
  (policy.data.withMember "checks" checks).withMember "override" override

/-- `generationOverlayPolicy(refPolicy)`. -/
def generationOverlayPolicy (refPolicy : AcceptancePolicy) :
    Except PolicyResolutionError JsValue := do
  if refPolicy.runner.isSome then
    throw (.incompatible (js "AcceptancePolicy v1 cannot require the Proposal posture verifier " ++
      js "together with an existing runner rule"))
  let rule ← (postureRule sha256).mapError .protocol
  return overlay refPolicy ((refPolicy.data.member "checks").withMember "runner" rule)
    (((refPolicy.data.member "override").withMember "allowFailedRunner" (.bool false)).withMember
      "allowMissingRunner" (.bool false))

end

/-- The policy with a required validation. -/
def schemaOverlayPolicy (refPolicy : AcceptancePolicy) : JsValue :=
  overlay refPolicy
    ((refPolicy.data.member "checks").withMember "validation"
      (((refPolicy.data.member "checks").member "validation").withMember "requirement"
        (.str (js "required"))))
    ((refPolicy.data.member "override").withMember "allowMissingValidation" (.bool false))

/-! ## The facts of a request -/

section

variable (parseProposalGenerationPreparation :
    JsValue → Except JsString ProposalGenerationPreparation)

/-- `generationPreparation(input)`: the preparation of a generated proposal that the facts are
or hold. Of the actions of a ledger the first that was generated decides. -/
def generationPreparation (requestKind : TransitionRequestKind) (facts : JsValue) :
    Except PolicyResolutionError (Option ProposalGenerationPreparation) :=
  if _ : facts.member "schema" =
      .str (js "t3x.application/workspace-generation-preparation/v1") then
    generationPreparation requestKind (facts.member "generation")
  else if _ : facts.member "schema" =
      .str (js "t3x.application/workspace-authoring-preparation/v1") then
    match _ : (facts.member "ledger").member "actions" with
    | .arr actions => do
      let preparations ← actions.attach.mapM fun action =>
        if action.1 = .null then throw .typeError
        else if isTruthy (action.1.member "generation") then do
          let preparation ← generationPreparation requestKind
            ((action.1.member "generation").member "preparation")
          return [preparation]
        else return []
      return preparations.flatten.head?.join
    | _ => throw (.integrity (js "Invalid authoring manifest"))
  else if facts.member "schema" ≠ .str proposalGenerationPreparationSchema then return none
  else if requestKind ≠ .structuredYops then
    throw (.integrity (js "Proposal Generation preparation facts require a structured_yops " ++
      js "request membership"))
  else (parseProposalGenerationPreparation facts).mapError .integrity |>.map some
termination_by sizeOf facts
decreasing_by
  · exact JsValue.sizeOf_member_lt (by assumption) _
  · have hmem := List.sizeOf_lt_of_mem action.2
    have hledger := JsValue.sizeOf_member_le (facts.member "ledger") "actions"
    have hfacts := JsValue.sizeOf_member_le facts "ledger"
    have hinner := JsValue.sizeOf_member_le (action.1.member "generation") "preparation"
    have houter := JsValue.sizeOf_member_le action.1 "generation"
    rename_i hactions _ _
    rw [hactions, JsValue.arr.sizeOf_spec] at hledger
    omega

/-- Whether the facts hold a review of a bound workspace schema that is not of the schema only. -/
def reviewsBoundSchema
    (parseWorkspaceSchemaReview : JsValue → Except JsString WorkspaceSchemaReview)
    (requestKind : TransitionRequestKind) (facts : JsValue) : Except PolicyResolutionError Bool :=
  if requestKind = .structuredYops ∧ facts.member "schema" =
      .str (js "t3x.application/workspace-authoring-preparation/v1") ∧
      facts.hasMember "schemaReview" = true then
    ((parseWorkspaceSchemaReview (facts.member "schemaReview")).mapError .review).map
      fun review => review.draftIsBound && !review.isSchemaOnly
  else .ok false

/-- The policy of the ref, or the overlay that requires a validation. -/
def effectivePolicy (sha256 : List UInt8 → JsString) (ref : TransitionPolicyBinding)
    (overlaid : Bool) : Except PolicyResolutionError TransitionPolicyBinding :=
  if overlaid then
    (createAcceptancePolicyResource sha256 (schemaOverlayPolicy ref.policy)
      (js "t3x://policies/workspace-schema-overlay/v1/" ++
        (ref.resource.member "digest").text.drop 7)).mapError .protocol
  else .ok ref

/-- The overlay of a generated proposal on a policy. -/
def generationOverlay (sha256 : List UInt8 → JsString) (effective : TransitionPolicyBinding)
    (preparation : ProposalGenerationPreparation) :
    Except PolicyResolutionError TransitionPolicyBinding := do
  let policy ← generationOverlayPolicy sha256 effective.policy
  (createAcceptancePolicyResource sha256 policy
    (js "t3x://policies/proposal-generation-overlay/v1/" ++
      ((effective.resource.member "digest").text.drop 7 ++ js "/" ++
        preparation.profileId))).mapError .protocol

/-- `resolveApplicableTransitionPolicy(input)`. -/
def resolveApplicableTransitionPolicy (sha256 : List UInt8 → JsString)
    (parseWorkspaceSchemaReview : JsValue → Except JsString WorkspaceSchemaReview)
    (ref : TransitionPolicyBinding) (requestKind : TransitionRequestKind) (facts : JsValue) :
    Except PolicyResolutionError ApplicableTransitionPolicy := do
  let preparation ←
    generationPreparation parseProposalGenerationPreparation requestKind facts
  let overlaid ← reviewsBoundSchema parseWorkspaceSchemaReview requestKind facts
  let effective ← effectivePolicy sha256 ref overlaid
  match preparation with
  | none =>
    return ⟨effective.policy, effective.resource,
      if overlaid then .workspaceSchemaOverlay else .refPolicy, ref.resource⟩
  | some preparation => do
    let bound ← generationOverlay sha256 effective preparation
    return ⟨bound.policy, bound.resource, .generationOverlay, ref.resource⟩

end

/-! ## What an overlay changes -/

section

variable {policy base : AcceptancePolicy} {checks override : JsValue}

/-- An overlay keeps the parts that it does not name. -/
theorem member_overlay {key : String} (hchecks : js "checks" ≠ js key)
    (hoverride : js "override" ≠ js key) :
    (overlay base checks override).member key = base.data.member key := by
  rw [overlay, JsValue.member_withMember_of_ne hoverride, JsValue.member_withMember_of_ne hchecks]

/-- The checks of an overlay. -/
@[simp] theorem member_overlay_checks :
    (overlay base checks override).member "checks" = checks := by
  rw [overlay, JsValue.member_withMember_of_ne (by decide), JsValue.member_withMember]

/-- What an override may pass over in an overlay. -/
@[simp] theorem member_overlay_override :
    (overlay base checks override).member "override" = override := by
  rw [overlay, JsValue.member_withMember]

/-- What a flag that is cleared or kept allows, the value of before allows. -/
theorem flag_of_withMember_false {value : JsValue} {key name : String}
    (h : ((value.withMember key (.bool false)).member name).flag = true) :
    (value.member name).flag = true := by
  by_cases hkey : js key = js name
  · have hsame : (value.withMember key (.bool false)).member name =
        (value.withMember key (.bool false)).member key := by
      unfold JsValue.member
      rw [hkey]
    rw [hsame, JsValue.member_withMember] at h
    cases h
  · rwa [JsValue.member_withMember_of_ne hkey] at h

/-- An overlay whose checks keep the trust in replays and confirmations strengthens the policy
when its other checks and its flags do. -/
theorem strengthens_overlay (hdata : policy.data = overlay base checks override)
    (hreplay : checks.member "replay" = (base.data.member "checks").member "replay")
    (hconfirmation : checks.member "humanConfirmation" =
      (base.data.member "checks").member "humanConfirmation")
    (hallows : ∀ name, policy.allows name = true → base.allows name = true)
    (hvalidation : policy.validation =
      { base.validation with isRequired := policy.validation.isRequired })
    (hrequired : base.validation.isRequired = true → policy.validation.isRequired = true)
    (hfinal : policy.validation.isRequired = true →
      base.validation.isRequired = true ∨ policy.allows "allowMissingValidation" = false)
    (hrunner : policy.runner = base.runner ∨ base.runner = none ∧
      policy.allows "allowFailedRunner" = false ∧ policy.allows "allowMissingRunner" = false) :
    Strengthens policy base where
  decides := by
    rw [AcceptancePolicy.decide, AcceptancePolicy.decide, hdata,
      member_overlay (by decide) (by decide)]
  overrides := by
    rw [AcceptancePolicy.override, AcceptancePolicy.override, hdata,
      member_overlay (by decide) (by decide)]
  selfApproval := by
    rw [AcceptancePolicy.allowSelfApproval, AcceptancePolicy.allowSelfApproval, hdata,
      member_overlay (by decide) (by decide)]
    exact id
  claims name := by
    rw [AcceptancePolicy.claim, AcceptancePolicy.claim, hdata,
      member_overlay (by decide) (by decide)]
  replay := by
    rw [AcceptancePolicy.replay, AcceptancePolicy.replay, hdata, member_overlay_checks, hreplay]
  confirmers := by
    rw [AcceptancePolicy.confirmers, AcceptancePolicy.confirmers, hdata, member_overlay_checks,
      hconfirmation]
  validation := hvalidation
  required := hrequired
  requiredFinal := hfinal
  runner := hrunner
  allows := hallows

/-- The overlay that requires a validation strengthens the policy. -/
theorem strengthens_schemaOverlayPolicy (hdata : policy.data = schemaOverlayPolicy base) :
    Strengthens policy base := by
  have hvalidation : policy.validation = { base.validation with isRequired := true } := by
    rw [AcceptancePolicy.validation, AcceptancePolicy.validation, hdata, schemaOverlayPolicy,
      member_overlay_checks, JsValue.member_withMember]
    unfold trustRuleOf
    rw [JsValue.member_withMember]
    simp only [JsValue.member_withMember_of_ne (show js "requirement" ≠ js "issuers" by decide),
      JsValue.member_withMember_of_ne (show js "requirement" ≠ js "tools" by decide),
      JsValue.member_withMember_of_ne (show js "requirement" ≠ js "environments" by decide),
      JsValue.member_withMember_of_ne (show js "requirement" ≠ js "profiles" by decide),
      JsValue.member_withMember_of_ne (show js "requirement" ≠ js "schemas" by decide),
      JsValue.member_withMember_of_ne (show js "requirement" ≠ js "contexts" by decide),
      JsValue.member_withMember_of_ne (show js "requirement" ≠ js "workflows" by decide),
      decide_true]
  have hrunner : policy.runner = base.runner := by
    rw [AcceptancePolicy.runner, AcceptancePolicy.runner, hdata, schemaOverlayPolicy,
      member_overlay_checks, JsValue.hasMember_withMember_of_ne (by decide),
      JsValue.member_withMember_of_ne (by decide)]
  refine strengthens_overlay hdata (JsValue.member_withMember_of_ne (by decide))
    (JsValue.member_withMember_of_ne (by decide)) ?_ ?_ ?_ ?_ (.inl hrunner)
  · intro name hallows
    rw [AcceptancePolicy.allows, hdata, schemaOverlayPolicy, member_overlay_override] at hallows
    exact flag_of_withMember_false hallows
  · rw [hvalidation]
  · rw [hvalidation]
    exact fun _ => rfl
  · refine fun _ => .inr ?_
    rw [AcceptancePolicy.allows, hdata, schemaOverlayPolicy, member_overlay_override,
      JsValue.member_withMember]
    rfl

/-- The overlay of a generated proposal strengthens the policy, and its rule for runners is that
of the posture verifier, whose failures no override passes over. -/
theorem strengthens_generationOverlayPolicy {sha256 : List UInt8 → JsString} {data : JsValue}
    (h : generationOverlayPolicy sha256 base = .ok data) (hdata : policy.data = data) :
    Strengthens policy base ∧ policy.allows "allowFailedRunner" = false ∧
      policy.allows "allowMissingRunner" = false ∧
      ∃ rule, postureRule sha256 = .ok rule ∧ policy.runner = some (trustRuleOf rule) := by
  obtain ⟨hnone, h⟩ := refuse_eq_ok_iff.mp h
  obtain ⟨rule, hrule, h⟩ := bind_eq_ok_iff.mp h
  obtain rfl := Except.ok.inj h
  have hbase : base.runner = none := Option.not_isSome_iff_eq_none.mp hnone
  have hmissing : policy.allows "allowMissingRunner" = false := by
    rw [AcceptancePolicy.allows, hdata, member_overlay_override, JsValue.member_withMember]
    rfl
  have hfailed : policy.allows "allowFailedRunner" = false := by
    rw [AcceptancePolicy.allows, hdata, member_overlay_override,
      JsValue.member_withMember_of_ne (by decide), JsValue.member_withMember]
    rfl
  have hvalidation : policy.validation = base.validation := by
    rw [AcceptancePolicy.validation, AcceptancePolicy.validation, hdata, member_overlay_checks,
      JsValue.member_withMember_of_ne (by decide)]
  refine ⟨strengthens_overlay hdata (JsValue.member_withMember_of_ne (by decide))
    (JsValue.member_withMember_of_ne (by decide)) ?_ ?_ ?_ ?_ (.inr ⟨hbase, hfailed, hmissing⟩),
    hfailed, hmissing, rule, ?_, ?_⟩
  · intro name hallows
    rw [AcceptancePolicy.allows, hdata, member_overlay_override] at hallows
    exact flag_of_withMember_false (flag_of_withMember_false hallows)
  · rw [hvalidation]
  · rw [hvalidation]
    exact id
  · rw [hvalidation]
    exact .inl
  · cases hposture : postureRule sha256 with
    | error e =>
      rw [hposture] at hrule
      cases hrule
    | ok found =>
      rw [hposture] at hrule
      obtain rfl := Except.ok.inj hrule
      rfl
  · rw [AcceptancePolicy.runner, hdata, member_overlay_checks, JsValue.hasMember_withMember,
      if_pos rfl, JsValue.member_withMember]

/-! ## The policy that applies -/

variable {sha256 : List UInt8 → JsString}
  {parseProposalGenerationPreparation : JsValue → Except JsString ProposalGenerationPreparation}
  {parseWorkspaceSchemaReview : JsValue → Except JsString WorkspaceSchemaReview}
  {ref : TransitionPolicyBinding} {requestKind : TransitionRequestKind} {facts : JsValue}
  {applicable : ApplicableTransitionPolicy}

/-- What a policy is that a resource was made for. -/
theorem data_of_createAcceptancePolicyResource {data : JsValue} {uri : JsString}
    {bound : TransitionPolicyBinding}
    (h : createAcceptancePolicyResource sha256 data uri = .ok bound) :
    bound.policy.data = data := by
  obtain ⟨parsed, hparsed, h⟩ := bind_eq_ok_iff.mp h
  obtain ⟨-, h⟩ := refuse_eq_ok_iff.mp h
  obtain ⟨digest, -, h⟩ := bind_eq_ok_iff.mp h
  obtain rfl := Except.ok.inj h
  rw [parseAcceptancePolicy] at hparsed
  split at hparsed
  · obtain rfl := Except.ok.inj hparsed
    rfl
  · cases hparsed

/-- A result whose error is renamed is good exactly when it is. -/
theorem mapError_eq_ok_iff {E E' T : Type} {x : Except E T} {f : E → E'} {value : T} :
    x.mapError f = .ok value ↔ x = .ok value := by
  cases x <;> simp [Except.mapError]

/-- The effective policy strengthens that of the ref. -/
theorem strengthens_effectivePolicy {overlaid : Bool} {effective : TransitionPolicyBinding}
    (h : effectivePolicy sha256 ref overlaid = .ok effective) :
    Strengthens effective.policy ref.policy := by
  rw [effectivePolicy] at h
  split at h
  · exact strengthens_schemaOverlayPolicy
      (data_of_createAcceptancePolicyResource (mapError_eq_ok_iff.mp h))
  · obtain rfl := Except.ok.inj h
    exact .refl _

/-- The policy asks for the report of the posture verifier, and no override does without it. -/
def RequiresPosture (sha256 : List UInt8 → JsString) (policy : AcceptancePolicy) : Prop :=
  policy.allows "allowFailedRunner" = false ∧ policy.allows "allowMissingRunner" = false ∧
    ∃ rule, postureRule sha256 = .ok rule ∧ policy.runner = some (trustRuleOf rule)

/-- The policy that applies strengthens that of the ref, and for a generated proposal it asks
for the report of the posture verifier. -/
theorem strengthens_of_resolve (h : resolveApplicableTransitionPolicy
      parseProposalGenerationPreparation sha256 parseWorkspaceSchemaReview ref requestKind facts =
        .ok applicable) :
    Strengthens applicable.policy ref.policy ∧
      ((∃ preparation, generationPreparation parseProposalGenerationPreparation requestKind facts =
        .ok (some preparation)) → RequiresPosture sha256 applicable.policy) := by
  obtain ⟨preparation, hpreparation, h⟩ := bind_eq_ok_iff.mp h
  obtain ⟨overlaid, -, h⟩ := bind_eq_ok_iff.mp h
  obtain ⟨effective, heffective, h⟩ := bind_eq_ok_iff.mp h
  have hstrong := strengthens_effectivePolicy heffective
  cases preparation with
  | none =>
    obtain rfl := Except.ok.inj h
    refine ⟨hstrong, ?_⟩
    rintro ⟨preparation, hsome⟩
    cases hpreparation.symm.trans hsome
  | some preparation =>
    obtain ⟨bound, hbound, h⟩ := bind_eq_ok_iff.mp h
    obtain rfl := Except.ok.inj h
    obtain ⟨data, hdata, hbound⟩ := bind_eq_ok_iff.mp hbound
    obtain ⟨hover, hfailed, hmissing, hrule⟩ := strengthens_generationOverlayPolicy hdata
      (data_of_createAcceptancePolicyResource (mapError_eq_ok_iff.mp hbound))
    exact ⟨hover.trans hstrong, fun _ => ⟨hfailed, hmissing, hrule⟩⟩

/-- A statement by which the posture verifier reports on the result of an Effect: the rule of
the overlay trusts its issuer, its tool, its workflow and its environment. -/
def ReportsPosture (sha256 : List UInt8 → JsString) (effect : JsValue)
    (observation : StatementObservation) : Prop :=
  predicateTypeOf observation.statement = runnerValidationPredicateType ∧
    IsAbout observation.statement (effect.member "result") ∧
    ∃ rule, postureRule sha256 = .ok rule ∧
      runnerTrustMatches (trustRuleOf rule) observation = .ok true

/-- A required check all of whose failures are final was passed and not failed. -/
theorem hasOutcome_of_required {texts : CheckTexts} {acceptable : List StatementObservation}
    (h : checkFailures texts true acceptable = []) :
    hasOutcome "passed" acceptable = true ∧ hasOutcome "failed" acceptable = false := by
  have hfailed := checkFailures_eq_nil h
  refine ⟨?_, hfailed⟩
  rw [checkFailures, hfailed, Bool.and_false, if_neg Bool.false_ne_true,
    if_neg Bool.false_ne_true, Bool.true_and] at h
  by_contra hpassed
  rw [if_pos (by rw [Bool.not_eq_true] at hpassed; rw [hpassed]; rfl)] at h
  cases h

/-- The acceptable reports of runners are the observed ones that the rule trusts. -/
theorem Evaluated.mem_runner {input : EvaluateAcceptanceInput} {evaluation : PolicyEvaluation}
    (e : Evaluated sha256 input evaluation) {rule : TrustRule}
    (hrule : e.context.policy.runner = some rule) (observation : StatementObservation) :
    observation ∈ e.acceptable.runner ↔ observation ∈ input.statements ∧
      predicateTypeOf observation.statement = runnerValidationPredicateType ∧
      IsAbout observation.statement (input.effect.member "result") ∧
      runnerTrustMatches rule observation = .ok true := by
  have hkept := acceptableOf_eq_ok_iff.mp e.acceptable_eq .runner
  have hmatches : e.context.policy.matches e.context.subjects.result .runner observation =
      runnerTrustMatches rule observation := by
    simp only [AcceptancePolicy.matches, hrule]
  obtain ⟨-, -, hresult, -⟩ := policyContext_eq_ok e.context_eq
  have hmem := mem_keep hkept observation
  rw [mem_part_collect e.collected_eq, hmatches] at hmem
  refine hmem.trans ?_
  rw [hrule]
  simp only [Profile.predicateType, Subjects.of, hresult, Option.isSome_some, implies_true,
    and_true, and_assoc]

/-- What is accepted or overridden under a policy that asks for the report of the posture
verifier has such a report, and no report of it that fails. -/
theorem posture_of_permits {resource : JsValue} {input : EvaluateAcceptanceInput}
    {required : AcceptancePolicy} (hrequires : RequiresPosture sha256 required)
    (houtcome : input.outcome ≠ .rejected)
    (h : Permits sha256 { input with policy := required.data, policyResource := resource }) :
    (∃ observation ∈ input.statements, ReportsPosture sha256 input.effect observation ∧
      outcomeOf observation.statement = js "passed") ∧
    ∀ observation ∈ input.statements, ReportsPosture sha256 input.effect observation →
      outcomeOf observation.statement ≠ js "failed" := by
  obtain ⟨evaluation, hevaluation, hpermitted⟩ := h
  obtain ⟨e⟩ := nonempty_evaluated hevaluation
  obtain ⟨hfailed, hmissing, rule, hrule, hrunner⟩ := hrequires
  have hpolicy := policy_of_policyContext e.context_eq
  rw [← hpolicy] at hfailed hmissing hrunner
  have hrequired : (trustRuleOf rule).isRequired = true := by
    obtain ⟨workflow, -, hrule⟩ := bind_eq_ok_iff.mp hrule
    obtain ⟨environment, -, hrule⟩ := bind_eq_ok_iff.mp hrule
    obtain rfl := Except.ok.inj hrule
    rfl
  have hnil : checkFailures (runnerTexts e.context.policy) true e.acceptable.runner = [] := by
    refine checkFailures_eq_nil_of_final hfailed hmissing fun failure hmem => ?_
    rw [e.permitted_eq] at hpermitted
    refine overrideable_of_permitted houtcome hpermitted ?_
    rw [e.failures_eq, e.checks_eq, policyFailures, hrunner]
    simp only [List.mem_append, hrequired]
    exact .inl (.inl (.inr hmem))
  obtain ⟨hpassed, hnone⟩ := hasOutcome_of_required hnil
  have hmem := e.mem_runner hrunner
  constructor
  · obtain ⟨observation, hobservation, hreport⟩ := List.any_eq_true.mp hpassed
    obtain ⟨hstatement, htype, habout, htrust⟩ := (hmem observation).mp hobservation
    exact ⟨observation, hstatement, ⟨htype, habout, rule, hrule, htrust⟩,
      of_decide_eq_true hreport⟩
  · rintro observation hstatement ⟨htype, habout, rule', hrule', htrust⟩ hreport
    obtain rfl := Except.ok.inj (hrule'.symm.trans hrule)
    have hacceptable := (hmem observation).mpr ⟨hstatement, htype, habout, htrust⟩
    exact List.any_eq_false.mp hnone observation hacceptable (decide_eq_true hreport)

/-- The policy that trusts everyone, bound to a ref. -/
def openBinding : TransitionPolicyBinding :=
  ⟨⟨openPolicy, acceptancePolicySchema_openPolicy⟩, openPolicyResource⟩

end

end T3x.Decision
