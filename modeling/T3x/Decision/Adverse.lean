import T3x.Decision.Discipline
import T3x.Decision.Noninterference
import T3x.Js.Ascii
import T3x.Js.Integers
import T3x.Transition.Commits

/-!
# Adverse evidence

Statements that report a replay false or a validation failed count against a
Proposal only: where such a statement is acceptable, a failure names it. So an
acceptance that is permitted in spite of adverse statements has not counted
them, and it is permitted without them; and an acceptance that is permitted is
so no more when a trusted statement reports the replay of its Effect false.
-/

namespace T3x.Decision

open Js Transition
open Transition.Independent (canonicalProtocolBytes_eq descriptorOf objectBytes objectInput)

variable {sha256 : List UInt8 → JsString}

/-- The outcome by which a statement of a profile counts against a Proposal. -/
def Profile.adverseOutcome : Profile → Option String
  | .replay => some "false"
  | .validation | .runner => some "failed"
  | .humanConfirmation => none

/-- The statement reports a replay false, a failed validation or a failed runner. -/
def IsAdverse (statement : JsValue) : Prop :=
  ∃ (profile : Profile) (outcome : String),
    predicateTypeOf statement = profile.predicateType ∧
      profile.adverseOutcome = some outcome ∧ outcomeOf statement = js outcome

/-- The requested outcome is permitted. -/
def Permits (sha256 : List UInt8 → JsString) (input : EvaluateAcceptanceInput) : Prop :=
  ∃ evaluation, evaluateAcceptance sha256 input = .ok evaluation ∧ evaluation.permitted = true

/-! ## Nothing adverse is acceptable -/

/-- Without a failure of a check no acceptable statement reports failure. -/
theorem checkFailures_eq_nil {texts : CheckTexts} {isRequired : Bool}
    {acceptable : List StatementObservation} (h : checkFailures texts isRequired acceptable = []) :
    hasOutcome "failed" acceptable = false := by
  unfold checkFailures at h
  cases hfailed : hasOutcome "failed" acceptable with
  | false => rfl
  | true =>
    rw [hfailed, Bool.and_true] at h
    cases hpassed : hasOutcome "passed" acceptable with
    | true =>
      rw [if_pos hpassed] at h
      cases h
    | false =>
      rw [if_neg (by simp [hpassed]), if_pos rfl] at h
      cases h

variable {input : EvaluateAcceptanceInput} {evaluation : PolicyEvaluation}

/-- A permitted acceptance has no failures. -/
theorem Evaluated.failures_eq_nil (e : Evaluated sha256 input evaluation)
    (houtcome : input.outcome = .accepted) (hpermitted : evaluation.permitted = true) :
    policyFailures e.context.policy e.context.proposal e.context.scope e.acceptable = [] := by
  rw [e.permitted_eq, houtcome] at hpermitted
  have hnil : evaluation.failures = [] := List.isEmpty_iff.mp hpermitted
  rw [e.failures_eq, e.checks_eq] at hnil
  exact (List.append_eq_nil_iff.mp (List.append_eq_nil_iff.mp hnil).1).1

/-- In a permitted acceptance no acceptable statement has the adverse outcome of its profile. -/
theorem Evaluated.hasOutcome_eq_false (e : Evaluated sha256 input evaluation)
    (houtcome : input.outcome = .accepted) (hpermitted : evaluation.permitted = true)
    {profile : Profile} {outcome : String} (hadverse : profile.adverseOutcome = some outcome) :
    hasOutcome outcome (e.acceptable.part profile) = false := by
  have hnil := e.failures_eq_nil houtcome hpermitted
  unfold policyFailures at hnil
  obtain ⟨hrest, hrunner⟩ := List.append_eq_nil_iff.mp hnil
  obtain ⟨hrest, hvalidation⟩ := List.append_eq_nil_iff.mp hrest
  obtain ⟨-, hreplay⟩ := List.append_eq_nil_iff.mp hrest
  cases profile with
  | replay =>
    obtain rfl := Option.some.inj hadverse
    exact (replayFailures_eq_nil hreplay).2
  | validation =>
    obtain rfl := Option.some.inj hadverse
    exact checkFailures_eq_nil hvalidation
  | runner =>
    obtain rfl := Option.some.inj hadverse
    have hkept := acceptableOf_eq_ok_iff.mp e.acceptable_eq .runner
    cases hrule : e.context.policy.runner with
    | some rule =>
      rw [hrule] at hrunner
      exact checkFailures_eq_nil hrunner
    | none =>
      -- without a rule for runners none of their statements is acceptable
      refine List.any_eq_false.mpr fun o ho => ?_
      have hmatches := ((mem_keep hkept o).mp ho).2
      simp only [AcceptancePolicy.matches, hrule, Except.ok.injEq, Bool.false_eq_true] at hmatches
  | humanConfirmation => cases hadverse

/-- In a permitted acceptance the adverse statements have no influence. -/
theorem Evaluated.isInert_of_adverse (e : Evaluated sha256 input evaluation)
    (houtcome : input.outcome = .accepted) (hpermitted : evaluation.permitted = true)
    {observation : StatementObservation} (hmem : observation ∈ input.statements)
    (hadverse : IsAdverse observation.statement) :
    IsInert sha256 e.context.policy e.context.subjects observation := by
  obtain ⟨one, hone⟩ := exists_collect_iff.mp ⟨_, e.collected_eq⟩ observation hmem
  refine ⟨one, hone, fun profile other hother => ?_⟩
  obtain ⟨rfl, htype, -⟩ := (mem_part_collectOne hone profile other).mp hother
  obtain ⟨profile', outcome, htype', hprofile, hreported⟩ := hadverse
  obtain rfl := Profile.predicateType_inj.mp (htype.symm.trans htype')
  have hcollected : other ∈ e.collected.part profile :=
    (mem_collect (Collected.part · profile) (by cases profile <;> rfl)
      (fun a b => by cases profile <;> rfl) e.collected_eq other).mpr ⟨other, hmem, one, hone, hother⟩
  have hkept := acceptableOf_eq_ok_iff.mp e.acceptable_eq profile
  obtain ⟨b, hb⟩ := exists_keep_iff.mp ⟨_, hkept⟩ other hcollected
  cases b with
  | false => exact hb
  | true =>
    -- were it acceptable, its outcome would be a failure
    have hacceptable := (mem_keep hkept other).mpr ⟨hcollected, hb⟩
    have hnone := List.any_eq_false.mp (e.hasOutcome_eq_false houtcome hpermitted hprofile) other
      hacceptable
    exact absurd (decide_eq_true hreported) hnone

/-! ## Adverse statements are monotone -/

/-- Where an acceptance is permitted with adverse statements, it is permitted without them. -/
theorem permits_without_adverse {statements : List StatementObservation}
    {P : StatementObservation → Prop} (houtcome : input.outcome = .accepted)
    (h : Adds P input.statements statements) (hP : ∀ o, P o → o ∈ statements ∧ IsAdverse o.statement)
    (hpermits : Permits sha256 { input with statements }) : Permits sha256 input := by
  obtain ⟨evaluation, hevaluation, hpermitted⟩ := hpermits
  obtain ⟨e⟩ := nonempty_evaluated hevaluation
  have hagree : Agree SameVerdict (evaluateAcceptance sha256 input)
      (evaluateAcceptance sha256 { input with statements }) := by
    refine evaluateAcceptance_agree h fun context hcontext o ho => ?_
    obtain rfl := Except.ok.inj (hcontext.symm.trans e.context_eq)
    exact e.isInert_of_adverse houtcome hpermitted (hP o ho).1 (hP o ho).2
  rw [hevaluation] at hagree
  cases hbefore : evaluateAcceptance sha256 input with
  | error error =>
    rw [hbefore] at hagree
    exact hagree.elim
  | ok before =>
    rw [hbefore] at hagree
    exact ⟨before, hbefore, hagree.1.trans hpermitted⟩

/-! ## A trusted false replay -/

/-- The statement reports the replay of an Effect false, and the policy trusts it. -/
structure IsFalseReplay (policy : AcceptancePolicy) (effect : ObjectDescriptor)
    (observation : StatementObservation) : Prop where
  /-- The statement is one of the protocol and of its profile. -/
  wellFormed : WellFormed observation.statement
  /-- It is a replay verification. -/
  isReplay : predicateTypeOf observation.statement = Profile.replay.predicateType
  /-- It is about the Effect. -/
  isAbout : IsAbout observation.statement effect.value
  /-- It reports the replay false. -/
  isFalse : outcomeOf observation.statement = js "false"
  /-- The policy trusts its source. -/
  isTrusted : policy.Trusts observation .replay

/-- The matcher accepts a trusted false replay, whatever the claimed result. -/
theorem IsFalseReplay.matches {policy : AcceptancePolicy} {effect : ObjectDescriptor}
    {observation : StatementObservation} (h : IsFalseReplay policy effect observation)
    (hpolicy : policy.data.isUnicode = true) (result : JsValue) :
    policy.matches result .replay observation = .ok true := by
  have hrule : policy.replay.IsUnicode :=
    isUnicode_trustRuleOf (isUnicode_member (isUnicode_member hpolicy "checks") "replay")
  have hunicode := (object_of_parseStatement h.wellFormed.isStatement).2.2
  obtain ⟨b, hb⟩ := exists_sourceMatches hrule hunicode
  obtain rfl := (sourceMatches_eq_true_iff hb).mpr h.isTrusted
  refine andThen_eq_true_iff.mpr ⟨hb, if_pos ?_⟩
  rw [h.isFalse]
  decide

/-- Whether the actor may decide is known when the request is evaluated. -/
theorem exists_decides (h : evaluateAcceptance sha256 input = .ok evaluation)
    {context : PolicyContext} (hcontext : policyContext sha256 input = .ok context) :
    ∃ decides, hasAuthority context.policy.decide input.actorContext = .ok decides := by
  obtain ⟨context', hcontext', h⟩ := bind_eq_ok_iff.mp h
  obtain rfl := Except.ok.inj (hcontext.symm.trans hcontext')
  obtain ⟨facts, hfacts, -⟩ := bind_eq_ok_iff.mp h
  obtain ⟨_, -, hfacts⟩ := bind_eq_ok_iff.mp hfacts
  obtain ⟨_, -, hfacts⟩ := bind_eq_ok_iff.mp hfacts
  obtain ⟨decides, hdecides, -⟩ := bind_eq_ok_iff.mp hfacts
  exact ⟨decides, hdecides⟩

/-- With a further statement that is collected and matched without failure the request is
evaluated. -/
theorem exists_evaluateAcceptance (e : Evaluated sha256 input evaluation)
    {statements : List StatementObservation} {observation : StatementObservation}
    (hstatements : ∀ o ∈ statements, o ∈ input.statements ∨ o = observation)
    {one : Collected}
    (hone : collectOne sha256 e.context.policy e.context.subjects observation = .ok one)
    (hmatches : ∀ profile, ∀ o ∈ one.part profile,
      ∃ b, e.context.policy.matches e.context.subjects.result profile o = .ok b)
    {decides : Bool}
    (hdecides : hasAuthority e.context.policy.decide input.actorContext = .ok decides) :
    ∃ evaluation', evaluateAcceptance sha256 { input with statements } = .ok evaluation' := by
  have hall := exists_collect_iff.mp ⟨_, e.collected_eq⟩
  obtain ⟨collected, hcollected⟩ : ∃ collected,
      collect sha256 e.context.policy e.context.subjects statements = .ok collected := by
    refine exists_collect_iff.mpr fun o ho => ?_
    rcases hstatements o ho with hold | rfl
    · exact hall o hold
    · exact ⟨one, hone⟩
  have hmem : ∀ profile {l : List StatementObservation} {c : Collected},
      collect sha256 e.context.policy e.context.subjects l = .ok c → ∀ x, x ∈ c.part profile ↔
        ∃ o ∈ l, ∃ one, collectOne sha256 e.context.policy e.context.subjects o = .ok one ∧
          x ∈ one.part profile := by
    intro profile l c hc x
    exact mem_collect (Collected.part · profile) (by cases profile <;> rfl)
      (fun a b => by cases profile <;> rfl) hc x
  have hkeep : ∀ profile, ∃ kept, keep (e.context.policy.matches e.context.subjects.result profile)
      (collected.part profile) = .ok kept := by
    intro profile
    refine exists_keep_iff.mpr fun x hx => ?_
    obtain ⟨o, ho, one', hone', hx⟩ := (hmem profile hcollected x).mp hx
    rcases hstatements o ho with hold | rfl
    · have hkept := acceptableOf_eq_ok_iff.mp e.acceptable_eq profile
      exact exists_keep_iff.mp ⟨_, hkept⟩ x
        ((hmem profile e.collected_eq x).mpr ⟨o, hold, one', hone', hx⟩)
    · obtain rfl := Except.ok.inj (hone.symm.trans hone')
      exact hmatches profile x hx
  choose kept hkept using hkeep
  have hacceptable : acceptableOf e.context.policy e.context.subjects.result collected =
      .ok ⟨kept .replay, kept .validation, kept .runner, kept .humanConfirmation⟩ := by
    refine acceptableOf_eq_ok_iff.mpr fun profile => ?_
    cases profile <;> exact hkept _
  exact ⟨_, bind_eq_ok_iff.mpr ⟨e.context, e.context_eq, bind_eq_ok_iff.mpr ⟨_,
    bind_eq_ok_iff.mpr ⟨_, hcollected, bind_eq_ok_iff.mpr ⟨_, hacceptable, bind_eq_ok_iff.mpr
      ⟨decides, hdecides, bind_eq_ok_iff.mpr ⟨_, e.override_eq, rfl⟩⟩⟩⟩, rfl⟩⟩⟩

/-- Adverse evidence is monotone. With adverse statements, trusted or not, an acceptance that is
not permitted stays so; with a trusted statement that reports the replay of its Effect false, an
acceptance that is permitted is evaluated and is permitted no more. -/
theorem adverse_evidence_monotone (hhash : ∀ input, IsHashText (sha256 input)) :
    (∀ (input : EvaluateAcceptanceInput) (added statements : List StatementObservation),
      input.outcome = .accepted → statements.Perm (input.statements ++ added) →
        (∀ o ∈ added, IsAdverse o.statement) → ¬ Permits sha256 input →
          ¬ Permits sha256 { input with statements }) ∧
    ∀ (input : EvaluateAcceptanceInput) (observation : StatementObservation)
      (statements : List StatementObservation) (policy : AcceptancePolicy)
      (effect : ObjectDescriptor),
      input.outcome = .accepted → statements.Perm (observation :: input.statements) →
        parseAcceptancePolicy input.policy = .ok policy →
          describeProtocolObject sha256 input.effect = .ok effect →
            IsFalseReplay policy effect observation → Permits sha256 input →
              ∃ evaluation, evaluateAcceptance sha256 { input with statements } = .ok evaluation ∧
                evaluation.permitted = false := by
  constructor
  · intro input added statements houtcome hperm hadverse hnot hpermits
    refine hnot (permits_without_adverse houtcome (P := (· ∈ added)) ⟨fun o ho => ?_, fun o ho => ?_⟩
      (fun o ho => ⟨?_, hadverse o ho⟩) hpermits)
    · exact hperm.mem_iff.mpr (List.mem_append_left _ ho)
    · exact List.mem_append.mp (hperm.mem_iff.mp ho)
    · exact hperm.mem_iff.mpr (List.mem_append_right _ ho)
  · rintro input observation statements policy effect houtcome hperm hpolicy heffect hfalse
      ⟨evaluation, hevaluation, hpermitted⟩
    obtain ⟨e⟩ := nonempty_evaluated hevaluation
    obtain ⟨decides, hdecides⟩ := exists_decides hevaluation e.context_eq
    obtain ⟨hpolicy', ⟨effect', heffect', hsubject⟩, -⟩ := policyContext_eq_ok e.context_eq
    obtain rfl := Except.ok.inj (hpolicy.symm.trans hpolicy')
    obtain rfl := Except.ok.inj (heffect.symm.trans heffect')
    obtain ⟨-, hunicode⟩ := isUnicode_policyContext hhash e.context_eq
    obtain ⟨one, hone⟩ := exists_collectOne hunicode hfalse.wellFormed
    have hmatches := hfalse.matches hunicode.policy e.context.subjects.result
    obtain ⟨after, hafter⟩ := exists_evaluateAcceptance e
      (fun o ho => (List.mem_cons.mp (hperm.mem_iff.mp ho)).symm) hone
      (fun profile o ho => by
        obtain ⟨rfl, htype, -⟩ := (mem_part_collectOne hone profile o).mp ho
        obtain rfl := Profile.predicateType_inj.mp (htype.symm.trans hfalse.isReplay)
        exact ⟨true, hmatches⟩) hdecides
    refine ⟨after, hafter, Bool.eq_false_iff.mpr fun hpermitted' => ?_⟩
    -- were it permitted, the false replay would have no influence, but it is matched
    obtain ⟨e'⟩ := nonempty_evaluated hafter
    have hcontext := Except.ok.inj (e.context_eq.symm.trans e'.context_eq)
    obtain ⟨one', hone', hinert⟩ := e'.isInert_of_adverse houtcome hpermitted'
      (hperm.mem_iff.mpr List.mem_cons_self)
      ⟨.replay, "false", hfalse.isReplay, rfl, hfalse.isFalse⟩
    rw [← hcontext] at hone' hinert
    have hpart : observation ∈ one'.part .replay := (mem_part_collectOne hone' .replay _).mpr
      ⟨rfl, hfalse.isReplay, by rw [show e.context.subjects.of .replay = _ from hsubject]
                                exact hfalse.isAbout, by simp⟩
    rw [hinert .replay observation hpart] at hmatches
    cases hmatches

/-! ## A request -/

/-- The test for canonical sets, by comparing the keys in turn. -/
def ascendingKeys (values : List JsValue) : Bool :=
  match values.mapM canonicalKey with
  | .ok keys => decide (keys.Nodup) && decide (keys.Pairwise fun a b => compareCodeUnits a b ≤ 0)
  | .error _ => false

/-- Keys are sorted exactly when they ascend. -/
theorem isCanonicalSet_eq_ascendingKeys : isCanonicalSet = ascendingKeys := by
  funext values
  unfold isCanonicalSet ascendingKeys
  cases values.mapM canonicalKey with
  | error e => rfl
  | ok keys =>
    refine congrArg (decide keys.Nodup && ·) (decide_eq_decide.mpr ⟨fun h => ?_, fun h => ?_⟩)
    · rw [h]
      exact isStringOrder_compareCodeUnits.isComparison.sortBy_pairwise keys
    · exact (List.mergeSort_of_pairwise (h.imp fun h => decide_eq_true h)).symm

/-- A claim that has to be authored. -/
def authoredRequirement : JsValue :=
  .obj [(js "allowedModes", .arr [.str (js "authored")]),
    (js "minimumEvidence", .num (countNumber 0)), (js "humanConfirmation", .str (js "not_required"))]

/-- A policy that trusts everyone and lets everyone decide. -/
def openPolicy : JsValue :=
  let rule := .obj [(js "actors", anySelector)]
  let trust := [(js "issuers", anySelector), (js "tools", anySelector),
    (js "environments", anySelector)]
  .obj [(js "schema", .str (js acceptancePolicySchemaName)), (js "version", .num (countNumber 1)),
    (js "authorization", .obj [(js "decide", rule), (js "override", rule),
      (js "allowSelfApproval", .bool false)]),
    (js "claims", .obj [(js "intent", authoredRequirement), (js "rationale", authoredRequirement)]),
    (js "checks", .obj [(js "replay", .obj trust),
      (js "validation", .obj ((js "requirement", .str (js "optional")) :: trust ++
        [(js "profiles", anySelector), (js "schemas", anySelector), (js "contexts", anySelector)])),
      (js "humanConfirmation", .obj [(js "issuers", anySelector)])]),
    (js "override", .obj [(js "allowClaimFailures", .bool false),
      (js "allowFailedValidation", .bool true), (js "allowMissingHumanConfirmation", .bool false),
      (js "allowMissingValidation", .bool true)])]

/-- A closed object with the required members in their shapes has its shape. -/
theorem closed_of_fields {fields : List ShapeField} {record : Record JsValue}
    (hkeys : ((Record.keys record).all fun key =>
      fields.any fun f => decide (js f.name = key)) = true)
    (hfields : ∀ f ∈ fields, (match Record.get record (js f.name) with
      | some value => f.shape value
      | none => f.isOptional) = true) : Shape.closed fields (.obj record) = true := by
  rw [Shape.closed, hkeys, Bool.true_and]
  exact List.all_eq_true.mpr hfields

/-- The requirement has its schema. -/
theorem claimRequirementSchema_authored : claimRequirementSchema authoredRequirement = true := by
  refine closed_of_fields rfl ?_
  simp only [List.forall_mem_cons, List.not_mem_nil, false_imp_iff, implies_true, and_true]
  refine ⟨?_, integer_countNumber (by decide) (by decide), by decide⟩
  rw [isCanonicalSet_eq_ascendingKeys]
  decide

/-- The policy has the schema. -/
theorem acceptancePolicySchema_openPolicy : acceptancePolicySchema openPolicy = true := by
  have hversion : (Shape.refined (.integer 1) fun value => value.number.strictEq (countNumber 1))
      (.num (countNumber 1)) = true := by
    simp [Shape.refined, integer_countNumber, JsValue.number, JsNumber.strictEq]
  refine closed_of_fields rfl ?_
  simp only [List.forall_mem_cons, List.not_mem_nil, false_imp_iff, implies_true, and_true]
  refine ⟨by decide, hversion, by decide, ?_, by decide, by decide⟩
  refine closed_of_fields rfl ?_
  simp only [List.forall_mem_cons, List.not_mem_nil, false_imp_iff, implies_true, and_true]
  exact ⟨claimRequirementSchema_authored, claimRequirementSchema_authored⟩

/-- The hash of the policy. -/
def openPolicyHash : JsString :=
  js "dc626b24661152f4e910ed6601ca26186b48032d0783df7cf648d4075dccaf29"

/-- The hash of the Effect. -/
def requestEffectHash : JsString :=
  js "e067b7f8905b100fb5cd272bcb659c05c26e1f66bb2837c1f843e258b829f1de"

/-- The hash of the Proposal. -/
def requestProposalHash : JsString :=
  js "df102c116348569868ecc3f659bb08970b91b3037d3a7fd65efa199fccf44788"

/-- The hash of the replay that verifies the Effect. -/
def verifiedReplayHash : JsString :=
  js "8d22893487bea9351af61485ee35630063c2fde4735bfd095afd44d5db95d11f"

/-- The hash of the replay that reports the Effect false. -/
def falseReplayHash : JsString :=
  js "d346d555cd2227d5e630eea8fd269734cd732ff91f79702d8f2266f55b4854d3"

/-- An Effect that changes nothing. -/
def requestEffect : JsValue := (sampleInput []).effect

/-- A Statement of an agent about the Effect. -/
def requestStatement (actor : String) (predicateType : JsString) (predicate : JsValue) : JsValue :=
  .obj [(js "schema", .str statementSchema),
    (js "subjects", .arr [(descriptorOf .effect requestEffectHash).value]),
    (js "actor", (ActorRef.mk .agent (js actor)).value), (js "predicateType", .str predicateType),
    (js "predicate", predicate)]

/-- The Proposal of the Effect. -/
def requestProposal : JsValue :=
  requestStatement "agent:planner" proposalPredicateType
    (.obj [(js "intent", sampleClaim), (js "rationale", sampleClaim)])

/-- The predicate of a replay that verifies the Effect. -/
def verifiedReplay : JsValue :=
  .obj [(js "tool", .obj [(js "name", .str (js "t3x")), (js "version", .str (js "1"))]),
    (js "run", .obj [(js "id", .str (js "run:1")),
      (js "recordedAt", .str (js "2026-07-28T00:00:00.000Z"))]),
    (js "environment", .obj [(js "mode", .str (js "unspecified"))]),
    (js "outcome", .str (js "verified")), (js "result", (sampleDescriptor .state).value)]

/-- A replay of the Effect by one agent. -/
def replayOf (predicate : JsValue) : StatementObservation :=
  ⟨requestStatement "agent:verifier" replayVerificationPredicateType predicate,
    ⟨.agent, js "agent:verifier"⟩⟩

/-- The hashes of the policy and of the objects of the request. -/
def requestHash (input : List UInt8) : JsString :=
  if input = objectInput .effect requestEffect then requestEffectHash
  else if input = objectBytes openPolicy then openPolicyHash
  else if input = objectInput .statement requestProposal then requestProposalHash
  else if input = objectInput .statement (replayOf verifiedReplay).statement then verifiedReplayHash
  else if input = objectInput .statement (replayOf falseReplay).statement then falseReplayHash
  else emptyStateHash

/-- The resource that names the policy. -/
def openPolicyResource : JsValue :=
  .obj [(js "uri", .str (js "t3x://project/policies/default")),
    (js "mediaType", .str acceptancePolicyMediaType),
    (js "digest", .str (js "sha256:" ++ openPolicyHash))]

/-- What was observed: everything in one store. -/
def requestScope : ObservationScope := ⟨js "complete", [js "project-store"]⟩

/-- A request of an actor under the policy that trusts everyone. -/
def request (actor : ActorRef) (outcome : RequestedDecisionOutcome)
    (statements : List StatementObservation) : EvaluateAcceptanceInput where
  actorContext := ⟨actor⟩
  effect := requestEffect
  observationScope := requestScope
  outcome := outcome
  policy := openPolicy
  policyResource := openPolicyResource
  proposal := requestProposal
  rationale := .unspecified
  statements := statements

/-- The hashes are hash texts. -/
theorem isHashText_requestHash (input : List UInt8) : IsHashText (requestHash input) := by
  have hdigits : ∀ hash ∈ [openPolicyHash, requestEffectHash, requestProposalHash,
      verifiedReplayHash, falseReplayHash, emptyStateHash],
      hash.length = 64 ∧ hash.all isLowerHex = true := by decide
  have hhash : ∀ hash ∈ [openPolicyHash, requestEffectHash, requestProposalHash,
      verifiedReplayHash, falseReplayHash, emptyStateHash], IsHashText hash := fun hash hmem =>
    ⟨(hdigits hash hmem).1, List.all_eq_true.mp (hdigits hash hmem).2⟩
  unfold requestHash
  split_ifs <;> exact hhash _ (by simp)

/-- The hash of the Effect. -/
theorem requestHash_effect :
    requestHash (objectInput .effect requestEffect) = requestEffectHash := if_pos rfl

/-- The bytes of a text begin with its first character. -/
theorem head_encodeUtf8 {u : UInt16} (h : u.toNat < 0x80) (s : JsString) :
    (encodeUtf8 (u :: s)).head? = some u.toNat.toUInt8 := by
  have hscalar : isSurrogatePoint u.toNat = false := by
    simp only [isSurrogatePoint, Bool.and_eq_false_iff, decide_eq_false_iff_not]
    omega
  obtain ⟨points, hpoints⟩ : ∃ points, codePoints (u :: s) = u.toNat :: points := by
    cases s with
    | nil => exact ⟨[], rfl⟩
    | cons v s =>
      rw [codePoints, (not_surrogate_of_lt h).1, Bool.false_and, if_neg Bool.false_ne_true]
      exact ⟨_, rfl⟩
  rw [encodeUtf8, hpoints, List.flatMap_cons, hscalar, if_neg Bool.false_ne_true, pointBytes,
    if_pos h]
  rfl

/-- The bytes of an object begin with its brace. -/
theorem head_objectBytes (members : Record JsValue) :
    (objectBytes (.obj members)).head? = some 123 := by
  rw [objectBytes, JsValue.encode_obj]
  exact head_encodeUtf8 (by decide) _

/-- The hash of the policy. -/
theorem requestHash_openPolicy : requestHash (objectBytes openPolicy) = openPolicyHash := by
  have hother : objectBytes openPolicy ≠ objectInput .effect requestEffect := by
    intro h
    have hhead := congrArg List.head? h
    rw [openPolicy, head_objectBytes] at hhead
    exact absurd hhead (by decide)
  rw [requestHash, if_neg hother, if_pos rfl]

/-- The Effect of the request is accepted. -/
theorem parseEffect_requestEffect :
    parseEffect requestEffect = .ok requestEffect := by
  have hhash : IsHashText emptyStateHash := ⟨by decide, List.all_eq_true.mp (by decide)⟩
  have hstate : ∀ path, descriptorOfKind .state (sampleDescriptor .state).value path =
      .ok (sampleDescriptor .state) := fun path =>
    bind_eq_ok_iff.mpr ⟨_, parseObjectDescriptor_value rfl rfl hhash,
      refuse_eq_ok_iff.mpr ⟨not_not.mpr rfl, rfl⟩⟩
  have hdriver : mutationDriverRef (.obj [(js "protocol", .str (js "yops")),
      (js "protocolVersion", .str (js "1")), (js "specDigest",
        .str (js "sha256:" ++ emptyStateHash))]) (js "$.driver") = .ok () := by
    decide
  have hdefinition : parseEffectDefinition (.obj [(js "driver", .obj [
      (js "protocol", .str (js "yops")), (js "protocolVersion", .str (js "1")),
      (js "specDigest", .str (js "sha256:" ++ emptyStateHash))]), (js "operations", .arr []),
      (js "inputs", .arr [])]) = .ok (.obj [(js "driver", .obj [
      (js "protocol", .str (js "yops")), (js "protocolVersion", .str (js "1")),
      (js "specDigest", .str (js "sha256:" ++ emptyStateHash))]), (js "operations", .arr []),
      (js "inputs", .arr [])]) := by
    refine bind_eq_ok_iff.mpr ⟨(), assertProtocolDomain_of_isUnicode (by decide), ?_⟩
    refine bind_eq_ok_iff.mpr ⟨_, rfl, bind_eq_ok_iff.mpr ⟨(), hdriver, ?_⟩⟩
    exact bind_eq_ok_iff.mpr ⟨_, rfl, bind_eq_ok_iff.mpr ⟨_, rfl, bind_eq_ok_iff.mpr ⟨_, rfl,
      bind_eq_ok_iff.mpr ⟨(), rfl, rfl⟩⟩⟩⟩
  refine bind_eq_ok_iff.mpr ⟨(), assertProtocolDomain_of_isUnicode (by decide), ?_⟩
  refine bind_eq_ok_iff.mpr ⟨_, rfl, bind_eq_ok_iff.mpr ⟨(), if_pos rfl, ?_⟩⟩
  refine bind_eq_ok_iff.mpr ⟨_, hstate _, bind_eq_ok_iff.mpr ⟨_, hdefinition, ?_⟩⟩
  exact bind_eq_ok_iff.mpr ⟨_, hstate _, rfl⟩

/-- A Statement about the Effect has its subject and its actor. -/
theorem parseStatement_request {actor : String} {predicateType : JsString} {predicate : JsValue}
    (hunicode : (requestStatement actor predicateType predicate).isUnicode = true)
    (hactor : actorRef (ActorRef.mk .agent (js actor)).value (js "$.actor") = .ok ())
    (htype : identifier (.str predicateType) (js "$.predicateType") = .ok predicateType)
    (hpredicate : (predicateType = proposalPredicateType ∧
        proposalPredicate predicate (js "$.predicate") = .ok ()) ∨
      predicateType ≠ proposalPredicateType ∧ predicateType ≠ decisionPredicateType) :
    parseStatement (requestStatement actor predicateType predicate) =
      .ok (requestStatement actor predicateType predicate) := by
  have hdomain := assertProtocolDomain_of_isUnicode hunicode
  have hsubject : parseObjectDescriptor (descriptorOf .effect requestEffectHash).value
      (itemPath (js "$.subjects") 0) = .ok (descriptorOf .effect requestEffectHash) :=
    parseObjectDescriptor_value rfl rfl (requestHash_effect ▸ isHashText_requestHash _)
  refine bind_eq_ok_iff.mpr ⟨(), hdomain, bind_eq_ok_iff.mpr ⟨_, rfl, ?_⟩⟩
  refine bind_eq_ok_iff.mpr ⟨(), if_pos rfl, bind_eq_ok_iff.mpr ⟨_, rfl, ?_⟩⟩
  refine refuse_eq_ok_iff.mpr ⟨Bool.false_ne_true, ?_⟩
  refine bind_eq_ok_iff.mpr ⟨[descriptorOf .effect requestEffectHash],
    bind_eq_ok_iff.mpr ⟨_, hsubject, rfl⟩, bind_eq_ok_iff.mpr ⟨(), rfl, ?_⟩⟩
  refine bind_eq_ok_iff.mpr ⟨(), hactor, bind_eq_ok_iff.mpr ⟨predicateType, htype, ?_⟩⟩
  rcases hpredicate with ⟨rfl, hpredicate⟩ | ⟨hproposal, hdecision⟩
  · rw [if_pos rfl]
    exact refuse_eq_ok_iff.mpr ⟨not_not.mpr rfl, bind_eq_ok_iff.mpr ⟨(), hpredicate, rfl⟩⟩
  · rw [if_neg hproposal, if_neg hdecision]
    have hmember : assertProtocolDomain predicate = .ok () :=
      assertProtocolDomain_of_isUnicode (isUnicode_member hunicode "predicate")
    exact bind_eq_ok_iff.mpr ⟨(), hmember, rfl⟩

/-- The Proposal is accepted. -/
theorem parseStatement_requestProposal : parseStatement requestProposal = .ok requestProposal := by
  have hpredicate : proposalPredicate (.obj [(js "intent", sampleClaim),
      (js "rationale", sampleClaim)]) (js "$.predicate") = .ok () := by
    decide
  exact parseStatement_request (by decide) (by decide) (by decide) (.inl ⟨rfl, hpredicate⟩)

/-- A replay of the Effect is well formed if its predicate is. -/
theorem wellFormed_replayOf {predicate : JsValue}
    (hunicode : (replayOf predicate).statement.isUnicode = true)
    (hschema : replayVerificationPredicateSchema predicate = true) :
    WellFormed (replayOf predicate).statement := by
  have hparse : parseStatement (replayOf predicate).statement =
      .ok (replayOf predicate).statement :=
    parseStatement_request hunicode (by decide) (by decide) (.inr (by decide))
  refine ⟨hparse, fun profile htype => ?_⟩
  obtain rfl : profile = .replay := Profile.predicateType_inj.mp htype.symm
  refine bind_eq_ok_iff.mpr ⟨_, hparse, refuse_eq_ok_iff.mpr ⟨not_not.mpr rfl, ?_⟩⟩
  have hpredicate : (!Profile.replay.predicateSchema predicate) = false := by
    rw [show Profile.replay.predicateSchema predicate = true from hschema]
    rfl
  exact bind_eq_ok_iff.mpr ⟨(), rfl, bind_eq_ok_iff.mpr ⟨(), rfl, refuse_eq_ok_iff.mpr
    ⟨Bool.eq_false_iff.mp hpredicate, rfl⟩⟩⟩

/-- An object of a kind is described by its hash. -/
theorem describe_of_object {object : JsValue} {kind : ObjectKind}
    (hobject : parseProtocolObject object = .ok object)
    (hkind : kindForSchema object = some (kind, expectedSchema kind))
    (hunicode : object.isUnicode = true) :
    describeProtocolObject sha256 object =
      .ok (descriptorOf kind (sha256 (objectInput kind object))) :=
  describeProtocolObject_eq_ok_iff.mpr ⟨_, canonicalProtocolObjectBytes_eq_ok_iff.mpr
    ⟨hobject, canonicalProtocolBytes_eq hunicode⟩, hkind, rfl⟩

/-- The Effect has its descriptor. -/
theorem describe_requestEffect : describeProtocolObject requestHash requestEffect =
    .ok (descriptorOf .effect requestEffectHash) := by
  have hunicode : requestEffect.isUnicode = true := by decide
  have hobject : parseProtocolObject requestEffect = .ok requestEffect := by
    refine bind_eq_ok_iff.mpr ⟨(), assertProtocolDomain_of_isUnicode hunicode, ?_⟩
    refine bind_eq_ok_iff.mpr ⟨_, rfl, ?_⟩
    rw [if_neg (by decide)]
    exact (if_pos rfl).trans parseEffect_requestEffect
  exact requestHash_effect ▸ describe_of_object hobject (by decide) hunicode

/-- The resource names the policy. -/
theorem verify_openPolicy :
    verifyAcceptancePolicyResource requestHash ⟨openPolicy, acceptancePolicySchema_openPolicy⟩
      openPolicyResource = .ok openPolicyResource := by
  have hpolicy : parseAcceptancePolicy openPolicy =
      .ok ⟨openPolicy, acceptancePolicySchema_openPolicy⟩ := dif_pos _
  obtain ⟨text, htext, hbytes⟩ := canonicalProtocolBytes_eq_ok_iff.mp
    (canonicalProtocolBytes_eq (show openPolicy.isUnicode = true by decide))
  have hdigest : acceptancePolicyDigest requestHash
      ⟨openPolicy, acceptancePolicySchema_openPolicy⟩ = .ok (js "sha256:" ++ openPolicyHash) := by
    rw [← requestHash_openPolicy, ← hbytes]
    exact bind_eq_ok_iff.mpr ⟨text, bind_eq_ok_iff.mpr ⟨_, hpolicy, htext⟩, rfl⟩
  have hschema : ¬ (!resourceDescriptorSchema openPolicyResource) = true := by decide
  have hmediaType : openPolicyResource.member "mediaType" = .str acceptancePolicyMediaType := rfl
  have hnamed : openPolicyResource.member "digest" = .str (js "sha256:" ++ openPolicyHash) := rfl
  unfold verifyAcceptancePolicyResource
  rw [if_neg hschema, if_neg (not_not.mpr hmediaType)]
  exact bind_eq_ok_iff.mpr ⟨_, hdigest, refuse_eq_ok_iff.mpr ⟨not_not.mpr hnamed, rfl⟩⟩

/-- A value without lone surrogates is equal to itself. -/
theorem canonicalEqual_self {value : JsValue} (h : value.isUnicode = true) :
    canonicalEqual value value = .ok true := by
  obtain ⟨text, htext⟩ := exists_canonicalJson_iff.mpr h
  exact bind_eq_ok_iff.mpr ⟨text, htext, bind_eq_ok_iff.mpr ⟨text, htext,
    congrArg Except.ok (decide_eq_true rfl)⟩⟩

/-- What the statements of the request are evaluated against. -/
def requestContext : PolicyContext where
  policy := ⟨openPolicy, acceptancePolicySchema_openPolicy⟩
  resource := openPolicyResource
  proposal := requestProposal
  proposalDescriptor :=
    descriptorOf .statement (requestHash (objectInput .statement requestProposal))
  scope := requestScope
  subjects := ⟨(descriptorOf .effect requestEffectHash).value, (sampleDescriptor .state).value,
    (descriptorOf .statement (requestHash (objectInput .statement requestProposal))).value⟩

/-- The request has its context. -/
theorem policyContext_request (actor : ActorRef) (outcome : RequestedDecisionOutcome)
    (statements : List StatementObservation) :
    policyContext requestHash (request actor outcome statements) = .ok requestContext := by
  have hpolicy : parseAcceptancePolicy openPolicy =
      .ok ⟨openPolicy, acceptancePolicySchema_openPolicy⟩ := dif_pos _
  have hproposal : parseProposalStatement requestProposal = .ok requestProposal :=
    bind_eq_ok_iff.mpr ⟨_, parseStatement_requestProposal, refuse_eq_ok_iff.mpr
      ⟨not_not.mpr rfl, rfl⟩⟩
  have hscope : normalizedScope requestScope = .ok requestScope := by
    have hsorted : sortBy compareCodeUnits requestScope.sources = requestScope.sources :=
      List.perm_singleton.mp (sortBy_perm _ _)
    unfold normalizedScope
    rw [if_neg (by decide), if_neg (by decide), if_neg (by decide), hsorted]
    rfl
  have habout : canonicalEqual (descriptorOf .effect requestEffectHash).value
      (descriptorOf .effect requestEffectHash).value = .ok true :=
    canonicalEqual_self (by decide)
  obtain ⟨hobject, hkind, hunicode⟩ := object_of_parseStatement parseStatement_requestProposal
  have hdescribed : describeProtocolObject requestHash requestProposal = .ok (descriptorOf
      .statement (requestHash (objectInput .statement requestProposal))) :=
    describe_of_object hobject hkind hunicode
  refine bind_eq_ok_iff.mpr ⟨_, hpolicy, bind_eq_ok_iff.mpr
    ⟨_, verify_openPolicy, ?_⟩⟩
  refine bind_eq_ok_iff.mpr ⟨_, hproposal, bind_eq_ok_iff.mpr ⟨_, parseEffect_requestEffect, ?_⟩⟩
  refine bind_eq_ok_iff.mpr ⟨_, hscope, bind_eq_ok_iff.mpr ⟨_, describe_requestEffect, ?_⟩⟩
  refine bind_eq_ok_iff.mpr ⟨true, habout, refuse_eq_ok_iff.mpr ⟨Bool.false_ne_true, ?_⟩⟩
  exact bind_eq_ok_iff.mpr ⟨_, hdescribed, rfl⟩

/-- An evaluation of the request: everyone is authorized, and the verdict is that of the policy. -/
theorem evaluateAcceptance_request (actor : ActorRef) (outcome : RequestedDecisionOutcome)
    {statements : List StatementObservation} {collected : Collected} {acceptable : Acceptable}
    (hcollected : collect requestHash requestContext.policy requestContext.subjects statements =
      .ok collected)
    (hacceptable : acceptableOf requestContext.policy requestContext.subjects.result collected =
      .ok acceptable) :
    ∃ evaluation facts,
      evaluateAcceptance requestHash (request actor outcome statements) = .ok evaluation ∧
        facts.actorAuthorizedToDecide = true ∧
        facts.actorIsProposer = sameActor (requestProposal.member "actor") actor.value ∧
        facts.policyFailures = policyFailures requestContext.policy requestProposal requestScope
          acceptable ∧
        evaluation.permitted = permittedForOutcome outcome (facts.policyFailures ++
          authorizationFailures outcome requestContext.policy facts ++
          overrideRationaleFailure outcome .unspecified) := by
  have hany : ∀ context, hasAuthority requestContext.policy.decide context = .ok true :=
    fun _ => rfl
  have hoverride : ∀ context, hasAuthority requestContext.policy.override context = .ok true :=
    fun _ => rfl
  exact ⟨_, _, bind_eq_ok_iff.mpr ⟨_, policyContext_request actor outcome statements,
    bind_eq_ok_iff.mpr ⟨_, bind_eq_ok_iff.mpr ⟨_, hcollected, bind_eq_ok_iff.mpr ⟨_, hacceptable,
      bind_eq_ok_iff.mpr ⟨true, hany _, bind_eq_ok_iff.mpr ⟨true, hoverride _, rfl⟩⟩⟩⟩, rfl⟩⟩,
    rfl, rfl, rfl, rfl⟩

/-- The policy matches a replay that reports the Effect false, and one with the claimed result. -/
theorem matches_replayOf {predicate : JsValue}
    (h : outcomeOf (replayOf predicate).statement = js "verified" →
      predicate.member "result" = (sampleDescriptor .state).value) :
    requestContext.policy.matches requestContext.subjects.result .replay (replayOf predicate) =
      .ok true := by
  have hsource : sourceMatches requestContext.policy.replay (replayOf predicate) = .ok true := rfl
  refine andThen_eq_true_iff.mpr ⟨hsource, ?_⟩
  by_cases houtcome : outcomeOf (replayOf predicate).statement = js "verified"
  · rw [if_neg (not_not.mpr houtcome)]
    have hresult : (predicateOf (replayOf predicate).statement).member "result" =
      (sampleDescriptor .state).value := h houtcome
    rw [hresult]
    exact canonicalEqual_self (by decide)
  · rw [if_pos houtcome]

/-- The claims of the Proposal are those that the policy asks for. -/
theorem claimFailures_request (confirmations : List StatementObservation) :
    claimFailures requestProposal requestContext.policy confirmations = [] := by
  have hzero : (countNumber 0).lt (countNumber 0) = false := decide_eq_false (lt_irrefl _)
  have hmode : ∀ name ∈ ["intent", "rationale"],
      (requestContext.policy.claim name).allowedModes.contains
        (((predicateOf requestProposal).member name).member "mode").text = true := by decide
  have hevidence : ∀ name ∈ ["intent", "rationale"],
      evidenceCount ((predicateOf requestProposal).member name) = 0 := by decide
  have hconfirmation : ∀ name ∈ ["intent", "rationale"],
      (requestContext.policy.claim name).needsConfirmation = false := by decide
  refine List.flatMap_eq_nil_iff.mpr fun name hname => ?_
  have hminimum : (requestContext.policy.claim name).minimumEvidence = countNumber 0 := by
    rcases List.mem_cons.mp hname with rfl | hname
    · rfl
    · obtain rfl := List.mem_singleton.mp hname
      rfl
  simp only [claimFailuresOf, hmode name hname, hevidence name hname, hminimum, hzero,
    hconfirmation name hname, if_true, Bool.false_and, Bool.false_eq_true, if_false,
    List.append_nil]

/-- A replay of the Effect is collected as one. -/
theorem collect_replayOf {predicate : JsValue} (hwell : WellFormed (replayOf predicate).statement) :
    ∃ collected, collect requestHash requestContext.policy requestContext.subjects
        [replayOf predicate] = .ok collected ∧
      ∀ profile o, o ∈ collected.part profile ↔ profile = .replay ∧ o = replayOf predicate := by
  obtain ⟨-, hunicode⟩ := isUnicode_policyContext isHashText_requestHash
    (policyContext_request ⟨.human, []⟩ .accepted [])
  obtain ⟨one, hone⟩ : ∃ one, collectOne requestHash requestContext.policy requestContext.subjects
      (replayOf predicate) = .ok one := exists_collectOne hunicode hwell
  have hcollected : collect requestHash requestContext.policy requestContext.subjects
      [replayOf predicate] = .ok (one.append {}) :=
    bind_eq_ok_iff.mpr ⟨one, hone, rfl⟩
  have habout : IsAbout (replayOf predicate).statement (requestContext.subjects.of .replay) :=
    ⟨_, rfl, JsValue.Same.refl _⟩
  refine ⟨_, hcollected, fun profile o => ?_⟩
  rw [mem_collect (Collected.part · profile) (by cases profile <;> rfl)
    (fun a b => by cases profile <;> rfl) hcollected]
  constructor
  · rintro ⟨observation, hobservation, one', hone', ho⟩
    obtain rfl := List.mem_singleton.mp hobservation
    obtain ⟨rfl, htype, -⟩ := (mem_part_collectOne hone' profile o).mp ho
    exact ⟨Profile.predicateType_inj.mp htype.symm, rfl⟩
  · rintro ⟨rfl, rfl⟩
    exact ⟨_, List.mem_singleton_self _, one, hone, (mem_part_collectOne hone .replay _).mpr
      ⟨rfl, rfl, habout, by simp⟩⟩

/-- The replay that verifies the Effect is well formed. -/
theorem wellFormed_verifiedReplay : WellFormed (replayOf verifiedReplay).statement :=
  wellFormed_replayOf (by decide) (by decide)

/-- The acceptance is permitted with a replay that verifies the Effect. -/
theorem permits_request : Permits requestHash
    (request ⟨.human, js "human:maintainer"⟩ .accepted [replayOf verifiedReplay]) := by
  obtain ⟨collected, hcollected, hparts⟩ := collect_replayOf wellFormed_verifiedReplay
  have hmatches : requestContext.policy.matches requestContext.subjects.result .replay
      (replayOf verifiedReplay) = .ok true := matches_replayOf fun _ => rfl
  have hkeep : ∀ profile, ∃ kept, keep (requestContext.policy.matches
      requestContext.subjects.result profile) (collected.part profile) = .ok kept := by
    refine fun profile => exists_keep_iff.mpr fun o ho => ?_
    obtain ⟨rfl, rfl⟩ := (hparts profile o).mp ho
    exact ⟨true, hmatches⟩
  choose kept hkept using hkeep
  have hmem : ∀ profile o, o ∈ kept profile ↔ profile = .replay ∧ o = replayOf verifiedReplay := by
    intro profile o
    rw [mem_keep (hkept profile), hparts]
    refine and_iff_left_of_imp ?_
    rintro ⟨rfl, rfl⟩
    exact hmatches
  have hvalidation : kept .validation = [] :=
    List.eq_nil_iff_forall_not_mem.mpr fun o ho => by cases ((hmem _ o).mp ho).1
  have hacceptable : acceptableOf requestContext.policy requestContext.subjects.result collected =
      .ok ⟨kept .replay, kept .validation, kept .runner, kept .humanConfirmation⟩ := by
    refine acceptableOf_eq_ok_iff.mpr fun profile => ?_
    cases profile <;> exact hkept _
  obtain ⟨evaluation, facts, hevaluation, hdecides, hproposer, hchecks, hpermitted⟩ :=
    evaluateAcceptance_request ⟨.human, js "human:maintainer"⟩ .accepted hcollected hacceptable
  have hfalse : hasOutcome "false" (kept .replay) = false := by
    refine List.any_eq_false.mpr fun o ho => ?_
    obtain ⟨-, rfl⟩ := (hmem _ o).mp ho
    decide
  have hverified : hasOutcome "verified" (kept .replay) = true :=
    List.any_eq_true.mpr ⟨_, (hmem .replay _).mpr ⟨rfl, rfl⟩, by decide⟩
  have hpolicy : facts.policyFailures = [] := by
    rw [hchecks, policyFailures, claimFailures_request, hvalidation, replayFailures, hfalse, hverified]
    rfl
  have hother : facts.actorIsProposer = false := by
    rw [hproposer]
    decide
  have hauthorized : authorizationFailures .accepted requestContext.policy facts = [] := by
    simp [authorizationFailures, hdecides, hother]
  refine ⟨evaluation, hevaluation, ?_⟩
  rw [hpermitted, hpolicy, hauthorized]
  rfl

/-- The request is permitted until the verifier reports the replay false. -/
theorem adverse_evidence_monotone_of_replays :
    Permits requestHash
        (request ⟨.human, js "human:maintainer"⟩ .accepted [replayOf verifiedReplay]) ∧
      ∃ evaluation, evaluateAcceptance requestHash (request ⟨.human, js "human:maintainer"⟩ .accepted
          [replayOf falseReplay, replayOf verifiedReplay]) = .ok evaluation ∧
        evaluation.permitted = false := by
  refine ⟨permits_request, ?_⟩
  have hsource : sourceMatches requestContext.policy.replay (replayOf falseReplay) = .ok true := rfl
  have hfalse : IsFalseReplay requestContext.policy (descriptorOf .effect requestEffectHash)
      (replayOf falseReplay) :=
    ⟨wellFormed_replayOf (by decide) (by decide), rfl, ⟨_, rfl, JsValue.Same.refl _⟩, rfl,
      (sourceMatches_eq_true_iff hsource).mp rfl⟩
  exact (adverse_evidence_monotone isHashText_requestHash).2
    (request ⟨.human, js "human:maintainer"⟩ .accepted [replayOf verifiedReplay])
    (replayOf falseReplay) [replayOf falseReplay, replayOf verifiedReplay] requestContext.policy
    (descriptorOf .effect requestEffectHash) rfl (List.Perm.refl _)
    (dif_pos acceptancePolicySchema_openPolicy) describe_requestEffect hfalse permits_request

end T3x.Decision
