import T3x.Decision.Evidence

/-!
# The discipline of overrides

Accepting and overriding exclude each other: an acceptance needs that nothing
fails, an override that something does. What an override passes over is what
the policy marks as overrideable; all other conditions hold when it is
permitted.
-/

namespace T3x.Decision

open Js Transition

variable {sha256 : List UInt8 → JsString}

/-! ## What the policy marks -/

/-- Whether the policy marks the failures of a code as overrideable. -/
def AcceptancePolicy.marks (policy : AcceptancePolicy) : PolicyFailureCode → Bool
  | .claimModeNotAllowed | .claimEvidenceInsufficient => policy.allows "allowClaimFailures"
  | .humanConfirmationRequired => policy.allows "allowMissingHumanConfirmation"
  | .validationConflict | .validationFailed => policy.allows "allowFailedValidation"
  | .validationRequired => policy.allows "allowMissingValidation"
  | .runnerConflict | .runnerFailed => policy.allows "allowFailedRunner"
  | .runnerRequired => policy.allows "allowMissingRunner"
  | .invalidOverrideRationale | .observationScopeIncomplete | .replayClaimFalse
  | .replayNotVerified | .selfApprovalForbidden | .unauthorizedDecision
  | .unauthorizedOverride => false

/-- Every failure has a property. -/
def AllAre (P : PolicyFailure → Prop) (failures : List PolicyFailure) : Prop :=
  ∀ failure ∈ failures, P failure

section

variable {P : PolicyFailure → Prop} {failures failures' : List PolicyFailure}

/-- No failure has to have the property. -/
theorem AllAre.nil : AllAre P [] := fun _ h => absurd h List.not_mem_nil

/-- One failure has the property. -/
theorem AllAre.single {failure : PolicyFailure} (h : P failure) : AllAre P [failure] := by
  intro f hf
  rwa [List.mem_singleton.mp hf]

/-- The failures of two lists have the property. -/
theorem AllAre.append (h : AllAre P failures) (h' : AllAre P failures') :
    AllAre P (failures ++ failures') := by
  intro f hf
  rcases List.mem_append.mp hf with hf | hf
  · exact h f hf
  · exact h' f hf

/-- The failures of either branch have the property. -/
theorem AllAre.ite {c : Prop} [Decidable c] (h : AllAre P failures) (h' : AllAre P failures') :
    AllAre P (if c then failures else failures') := by
  split_ifs
  · exact h
  · exact h'

end

/-- Every failure is overrideable as the policy marks its code. -/
abbrev AreMarked (policy : AcceptancePolicy) (failures : List PolicyFailure) : Prop :=
  AllAre (fun failure => failure.overrideable = policy.marks failure.code) failures

/-- No failure is overrideable. -/
abbrev AreFinal (failures : List PolicyFailure) : Prop :=
  AllAre (fun failure => failure.overrideable = false) failures

/-- The failures of the claims are marked. -/
theorem areMarked_claimFailures (proposal : JsValue) (policy : AcceptancePolicy)
    (confirmations : List StatementObservation) :
    AreMarked policy (claimFailures proposal policy confirmations) := by
  intro f hf
  obtain ⟨name, -, hf⟩ := List.mem_flatMap.mp hf
  suffices hname : AreMarked policy (claimFailuresOf proposal policy confirmations name) from
    hname f hf
  refine AllAre.append (AllAre.append ?_ ?_) ?_
  · exact AllAre.ite AllAre.nil (AllAre.single rfl)
  · exact AllAre.ite (AllAre.single rfl) AllAre.nil
  · exact AllAre.ite (AllAre.single rfl) AllAre.nil

/-- The failures of a check are marked when its codes are. -/
theorem areMarked_checkFailures {policy : AcceptancePolicy} {texts : CheckTexts}
    (hconflict : texts.allowFailed = policy.marks texts.conflict)
    (hfailed : texts.allowFailed = policy.marks texts.failed)
    (hrequired : texts.allowMissing = policy.marks texts.required) (isRequired : Bool)
    (acceptable : List StatementObservation) :
    AreMarked policy (checkFailures texts isRequired acceptable) :=
  AllAre.ite (AllAre.single hconflict) <| AllAre.ite (AllAre.single hfailed) <|
    AllAre.ite (AllAre.single hrequired) AllAre.nil

/-- The failures of the policy's checks are marked. -/
theorem areMarked_policyFailures (policy : AcceptancePolicy) (proposal : JsValue)
    (scope : ObservationScope) (acceptable : Acceptable) :
    AreMarked policy (policyFailures policy proposal scope acceptable) := by
  refine (((areMarked_claimFailures _ _ _).append ?_).append ?_ |>.append ?_).append ?_
  · exact AllAre.ite (AllAre.single rfl) AllAre.nil
  · exact AllAre.ite (AllAre.single rfl) <|
      AllAre.ite (AllAre.single rfl) AllAre.nil
  · exact areMarked_checkFailures rfl rfl rfl _ _
  · cases policy.runner with
    | none => exact AllAre.nil
    | some rule => exact areMarked_checkFailures rfl rfl rfl _ _

/-- The failures of the authorization are marked. -/
theorem areMarked_authorizationFailures (outcome : RequestedDecisionOutcome)
    (policy : AcceptancePolicy) (facts : EvaluationFacts) :
    AreMarked policy (authorizationFailures outcome policy facts) := by
  refine AllAre.append (AllAre.ite ?_ ?_) ?_
  · exact AllAre.ite (AllAre.single rfl) AllAre.nil
  · exact AllAre.ite (AllAre.single rfl) AllAre.nil
  · exact AllAre.ite (AllAre.single rfl) AllAre.nil

/-- The failure of the rationale is marked. -/
theorem areMarked_overrideRationaleFailure (outcome : RequestedDecisionOutcome)
    (rationale : StringClaim) (policy : AcceptancePolicy) :
    AreMarked policy (overrideRationaleFailure outcome rationale) :=
  AllAre.ite AllAre.nil (AllAre.single rfl)

/-- What the authorization refuses no override passes over. -/
theorem areFinal_authorizationFailures (outcome : RequestedDecisionOutcome)
    (policy : AcceptancePolicy) (facts : EvaluationFacts) :
    AreFinal (authorizationFailures outcome policy facts) := by
  refine AllAre.append (.ite ?_ ?_) ?_
  · exact .ite (.single rfl) .nil
  · exact .ite (.single rfl) .nil
  · exact .ite (.single rfl) .nil

/-- A missing rationale no override passes over. -/
theorem areFinal_overrideRationaleFailure (outcome : RequestedDecisionOutcome)
    (rationale : StringClaim) : AreFinal (overrideRationaleFailure outcome rationale) :=
  .ite .nil (.single rfl)

/-- An incomplete scope no override passes over. -/
theorem areFinal_scopeFailures (scope : ObservationScope) : AreFinal (scopeFailures scope) :=
  .ite (.single rfl) .nil

/-- A failed or missing replay no override passes over. -/
theorem areFinal_replayFailures (acceptable : List StatementObservation) :
    AreFinal (replayFailures acceptable) :=
  .ite (.single rfl) (.ite (.single rfl) .nil)

/-! ## What holds when nothing fails -/

/-- Without a failure of the scope it is not partial. -/
theorem scopeFailures_eq_nil {scope : ObservationScope} (h : scopeFailures scope = []) :
    scope.completeness ≠ js "partial" := by
  intro hpartial
  rw [scopeFailures, if_pos hpartial] at h
  cases h

/-- Without a failure of the replay it is verified and never false. -/
theorem replayFailures_eq_nil {acceptable : List StatementObservation}
    (h : replayFailures acceptable = []) :
    hasOutcome "verified" acceptable = true ∧ hasOutcome "false" acceptable = false := by
  unfold replayFailures at h
  cases hfalse : hasOutcome "false" acceptable with
  | true =>
    rw [if_pos hfalse] at h
    cases h
  | false =>
    rw [if_neg (by simp [hfalse])] at h
    cases hverified : hasOutcome "verified" acceptable with
    | true => exact ⟨rfl, rfl⟩
    | false =>
      rw [if_pos (by simp [hverified])] at h
      cases h

/-- Without a failure of the authorization an override is authorized and no self-approval that
the policy forbids. -/
theorem authorizationFailures_eq_nil {policy : AcceptancePolicy} {facts : EvaluationFacts}
    (h : authorizationFailures .overridden policy facts = []) :
    facts.actorAuthorizedToOverride = true ∧
      (policy.allowSelfApproval = true ∨ facts.actorIsProposer = false) := by
  obtain ⟨hauthorized, hself⟩ := List.append_eq_nil_iff.mp h
  rw [if_pos rfl] at hauthorized
  constructor
  · by_contra hnot
    rw [if_pos (by simp [hnot])] at hauthorized
    cases hauthorized
  · by_contra hnot
    simp only [not_or, Bool.not_eq_true, Bool.not_eq_false] at hnot
    rw [if_pos ⟨by decide, hnot.2, hnot.1⟩] at hself
    cases hself

/-- Without a failure of the rationale an override has an authored one that is not blank. -/
theorem overrideRationaleFailure_eq_nil {rationale : StringClaim}
    (h : overrideRationaleFailure .overridden rationale = []) : ∃ value evidence,
      rationale = .made .authored value evidence ∧ ∃ u ∈ value, isSpace u = false := by
  unfold overrideRationaleFailure StringClaim.isAuthored at h
  split_ifs at h with hauthored
  replace hauthored := hauthored.resolve_left (by decide)
  split at hauthored
  next value evidence =>
    refine ⟨value, evidence, rfl, ?_⟩
    by_contra hblank
    have htrim : trim value = [] := by
      refine trim_eq_nil_iff.mpr fun u hu => ?_
      by_contra hspace
      exact hblank ⟨u, hu, by simpa using hspace⟩
    simp [htrim] at hauthored
  next => cases hauthored

/-! ## An evaluation and its parts -/

/-- What an evaluation is made of. -/
structure Evaluated (sha256 : List UInt8 → JsString) (input : EvaluateAcceptanceInput)
    (evaluation : PolicyEvaluation) where
  /-- The context. -/
  context : PolicyContext
  /-- What is collected. -/
  collected : Collected
  /-- What is acceptable. -/
  acceptable : Acceptable
  /-- The facts. -/
  facts : EvaluationFacts
  /-- The context is that of the input. -/
  context_eq : policyContext sha256 input = .ok context
  /-- The statements are collected. -/
  collected_eq : collect sha256 context.policy context.subjects input.statements = .ok collected
  /-- The acceptable statements are kept. -/
  acceptable_eq : acceptableOf context.policy context.subjects.result collected = .ok acceptable
  /-- The authority to override. -/
  override_eq : hasAuthority context.policy.override input.actorContext =
    .ok facts.actorAuthorizedToOverride
  /-- The actor is compared with the proposer. -/
  proposer_eq : facts.actorIsProposer =
    sameActor (context.proposal.member "actor") input.actorContext.actor.value
  /-- The failures of the checks. -/
  checks_eq : facts.policyFailures =
    policyFailures context.policy context.proposal context.scope acceptable
  /-- All failures. -/
  failures_eq : evaluation.failures = facts.policyFailures ++
    authorizationFailures input.outcome context.policy facts ++
    overrideRationaleFailure input.outcome input.rationale
  /-- The verdict. -/
  permitted_eq : evaluation.permitted = permittedForOutcome input.outcome evaluation.failures

/-- The parts of an evaluation. -/
theorem nonempty_evaluated {input : EvaluateAcceptanceInput} {evaluation : PolicyEvaluation}
    (h : evaluateAcceptance sha256 input = .ok evaluation) :
    Nonempty (Evaluated sha256 input evaluation) := by
  obtain ⟨context, hcontext, h⟩ := bind_eq_ok_iff.mp h
  obtain ⟨facts, hfacts, h⟩ := bind_eq_ok_iff.mp h
  obtain rfl := Except.ok.inj h
  obtain ⟨collected, hcollected, hfacts⟩ := bind_eq_ok_iff.mp hfacts
  obtain ⟨acceptable, hacceptable, hfacts⟩ := bind_eq_ok_iff.mp hfacts
  obtain ⟨decides, hdecides, hfacts⟩ := bind_eq_ok_iff.mp hfacts
  obtain ⟨overrides, hoverrides, hfacts⟩ := bind_eq_ok_iff.mp hfacts
  obtain rfl := Except.ok.inj hfacts
  exact ⟨⟨context, collected, acceptable, _, hcontext, hcollected, hacceptable, hoverrides, rfl, rfl,
    rfl, rfl⟩⟩

/-- Every failure of an evaluation is marked by the policy. -/
theorem Evaluated.areMarked {input : EvaluateAcceptanceInput} {evaluation : PolicyEvaluation}
    (e : Evaluated sha256 input evaluation) : AreMarked e.context.policy evaluation.failures := by
  rw [e.failures_eq, e.checks_eq]
  refine AllAre.append (AllAre.append ?_ ?_) ?_
  · exact areMarked_policyFailures _ _ _ _
  · exact areMarked_authorizationFailures _ _ _
  · exact areMarked_overrideRationaleFailure _ _ _

/-! ## Accepting and overriding -/

/-- Of one input, both the acceptance and the override are not permitted, whatever the rationales
are. -/
theorem not_accepted_and_overridden {input : EvaluateAcceptanceInput} {r r' : StringClaim}
    {accept override : PolicyEvaluation}
    (haccept : evaluateAcceptance sha256 { input with outcome := .accepted, rationale := r } =
      .ok accept)
    (hoverride : evaluateAcceptance sha256 { input with outcome := .overridden, rationale := r' } =
      .ok override) : ¬ (accept.permitted = true ∧ override.permitted = true) := by
  rintro ⟨ha, ho⟩
  obtain ⟨a⟩ := nonempty_evaluated haccept
  obtain ⟨o⟩ := nonempty_evaluated hoverride
  -- the checks do not depend on the outcome
  have hcontext : a.context = o.context :=
    Except.ok.inj (a.context_eq.symm.trans o.context_eq)
  have hcollected : a.collected = o.collected := by
    have hc := a.collected_eq
    rw [hcontext] at hc
    exact Except.ok.inj (hc.symm.trans o.collected_eq)
  have hacceptable : a.acceptable = o.acceptable := by
    have hc := a.acceptable_eq
    rw [hcontext, hcollected] at hc
    exact Except.ok.inj (hc.symm.trans o.acceptable_eq)
  rw [a.permitted_eq] at ha
  have hnone : accept.failures = [] := List.isEmpty_iff.mp ha
  rw [a.failures_eq, List.append_eq_nil_iff, List.append_eq_nil_iff] at hnone
  have hchecks : o.facts.policyFailures = [] := by
    rw [o.checks_eq, ← hcontext, ← hacceptable, ← a.checks_eq]
    exact hnone.1.1
  rw [o.permitted_eq] at ho
  simp only [permittedForOutcome, Bool.and_eq_true, Bool.not_eq_true', List.all_eq_true] at ho
  obtain ⟨hsome, hall⟩ := ho
  rw [o.failures_eq, hchecks, List.nil_append] at hsome hall
  -- what is left besides the checks is never overrideable
  have hfinal := (areFinal_authorizationFailures .overridden o.context.policy o.facts).append
    (areFinal_overrideRationaleFailure .overridden r')
  refine absurd (List.isEmpty_iff.mpr (List.eq_nil_iff_forall_not_mem.mpr fun f hf => ?_))
    (Bool.eq_false_iff.mp hsome)
  exact absurd ((hall f hf).symm.trans (hfinal f hf)) (by decide)

/-- A trusted replay verification of the Effect. -/
structure TrustedReplay (policy : AcceptancePolicy) (effect : ObjectDescriptor)
    (observation : StatementObservation) : Prop where
  /-- The statement is a replay verification. -/
  isReplay : predicateTypeOf observation.statement = replayVerificationPredicateType
  /-- Its subject is the Effect. -/
  isAboutEffect : IsAbout observation.statement effect.value
  /-- The policy trusts its source. -/
  isTrusted : policy.Trusts observation .replay

/-- Why an override is permitted. -/
structure OverrideJustified (policy : AcceptancePolicy) (effect : ObjectDescriptor)
    (input : EvaluateAcceptanceInput) (failures : List PolicyFailure) : Prop where
  /-- The actor is authorized to override. -/
  authorized : policy.override.Selects input.actorContext.actor.value
  /-- The observation is complete. -/
  complete : input.observationScope.completeness = js "complete"
  /-- A trusted replay verifies the Effect with its exact result. -/
  verified : ∃ o ∈ input.statements, TrustedReplay policy effect o ∧
    outcomeOf o.statement = js "verified" ∧
    JsValue.Same ((predicateOf o.statement).member "result") (input.effect.member "result")
  /-- No trusted replay reports that the Effect is false. -/
  notFalse : ∀ o ∈ input.statements, TrustedReplay policy effect o →
    outcomeOf o.statement ≠ js "false"
  /-- The actor is not the proposer, unless the policy allows self-approval. -/
  notSelf : policy.allowSelfApproval = true ∨
    sameActor (input.proposal.member "actor") input.actorContext.actor.value = false
  /-- The rationale is authored and not blank. -/
  rationale : ∃ value evidence, input.rationale = .made .authored value evidence ∧
    ∃ u ∈ value, isSpace u = false
  /-- Something fails, and all of it the policy marks as overrideable. -/
  overrideable : failures ≠ [] ∧
    ∀ failure ∈ failures, failure.overrideable = true ∧ policy.marks failure.code = true

/-- A context is that of the input. -/
theorem policyContext_eq_ok {input : EvaluateAcceptanceInput} {context : PolicyContext}
    (h : policyContext sha256 input = .ok context) :
    parseAcceptancePolicy input.policy = .ok context.policy ∧
      (∃ effect, describeProtocolObject sha256 input.effect = .ok effect ∧
        context.subjects.effect = effect.value) ∧
      context.subjects.result = input.effect.member "result" ∧
      context.proposal = input.proposal ∧
      context.scope.completeness = input.observationScope.completeness ∧
      (context.scope.completeness = js "complete" ∨ context.scope.completeness = js "partial") := by
  obtain ⟨policy, hpolicy, h⟩ := bind_eq_ok_iff.mp h
  obtain ⟨resource, -, h⟩ := bind_eq_ok_iff.mp h
  obtain ⟨proposal, hproposal, h⟩ := bind_eq_ok_iff.mp h
  obtain ⟨effect, heffect, h⟩ := bind_eq_ok_iff.mp h
  obtain ⟨scope, hscope, h⟩ := bind_eq_ok_iff.mp h
  obtain ⟨effectDescriptor, hdescriptor, h⟩ := bind_eq_ok_iff.mp h
  obtain ⟨about, -, h⟩ := bind_eq_ok_iff.mp h
  obtain ⟨-, h⟩ := refuse_eq_ok_iff.mp h
  obtain ⟨proposalDescriptor, -, h⟩ := bind_eq_ok_iff.mp h
  obtain rfl := Except.ok.inj h
  obtain rfl := parseEffect_returns _ effect heffect
  obtain ⟨-, hscope⟩ := refuse_eq_ok_iff.mp hscope
  obtain ⟨-, hscope⟩ := refuse_eq_ok_iff.mp hscope
  obtain ⟨hknown, hscope⟩ := refuse_eq_ok_iff.mp hscope
  obtain rfl := Except.ok.inj hscope
  obtain ⟨statement, hstatement, hproposal⟩ := bind_eq_ok_iff.mp hproposal
  obtain rfl := parseStatement_returns _ statement hstatement
  obtain ⟨-, hproposal⟩ := refuse_eq_ok_iff.mp hproposal
  refine ⟨hpolicy, ⟨effectDescriptor, hdescriptor, rfl⟩, rfl, (Except.ok.inj hproposal).symm, rfl, ?_⟩
  by_contra hnot
  exact hknown (not_or.mp hnot)

section

variable {input : EvaluateAcceptanceInput} {evaluation : PolicyEvaluation}

/-- The acceptable replays are the observed ones that the policy trusts for the Effect, with the
exact result when they verify it. -/
theorem Evaluated.mem_replay (e : Evaluated sha256 input evaluation) {effect : ObjectDescriptor}
    (heffect : e.context.subjects.effect = effect.value) (o : StatementObservation) :
    o ∈ e.acceptable.replay ↔ o ∈ input.statements ∧ TrustedReplay e.context.policy effect o ∧
      (outcomeOf o.statement = js "verified" →
        JsValue.Same ((predicateOf o.statement).member "result") e.context.subjects.result) := by
  have hcollected := mem_collect (Collected.part · .replay) rfl (fun _ _ => rfl) e.collected_eq o
  have hall := exists_collect_iff.mp ⟨_, e.collected_eq⟩
  have hkeep := acceptableOf_eq_ok_iff.mp e.acceptable_eq .replay
  have htests := exists_keep_iff.mp ⟨_, hkeep⟩
  have hmem : o ∈ e.collected.part .replay ↔ o ∈ input.statements ∧
      predicateTypeOf o.statement = replayVerificationPredicateType ∧
      IsAbout o.statement effect.value := by
    rw [hcollected]
    constructor
    · rintro ⟨o', ho', one, hone, hpart⟩
      obtain ⟨rfl, htype, habout, -⟩ := (mem_part_collectOne hone .replay o).mp hpart
      rw [show e.context.subjects.of .replay = effect.value from heffect] at habout
      exact ⟨ho', htype, habout⟩
    · rintro ⟨ho, htype, habout⟩
      obtain ⟨one, hone⟩ := hall o ho
      rw [← show e.context.subjects.of .replay = effect.value from heffect] at habout
      exact ⟨o, ho, one, hone, (mem_part_collectOne hone .replay o).mpr ⟨rfl, htype, habout, by simp⟩⟩
  refine (mem_keep hkeep o).trans ?_
  constructor
  · rintro ⟨hpart, hmatches⟩
    obtain ⟨ho, htype, habout⟩ := hmem.mp hpart
    obtain ⟨hsource, hresult⟩ := andThen_eq_true_iff.mp hmatches
    refine ⟨ho, ⟨htype, habout, (sourceMatches_eq_true_iff hsource).mp rfl⟩, fun hverified => ?_⟩
    rw [if_neg (not_not.mpr hverified)] at hresult
    exact (canonicalEqual_eq_true_iff hresult).mp rfl
  · rintro ⟨ho, ⟨htype, habout, htrusted⟩, hresult⟩
    have hpart := hmem.mpr ⟨ho, htype, habout⟩
    refine ⟨hpart, ?_⟩
    obtain ⟨b, hb⟩ := htests o hpart
    cases b with
    | true => exact hb
    | false =>
      -- the source is matched, so the result would have to differ
      rcases andThen_eq_ok_iff.mp hb with ⟨hsource, -⟩ | ⟨-, hlast⟩
      · exact absurd ((sourceMatches_eq_true_iff hsource).mpr htrusted) (by simp)
      · split_ifs at hlast with hverified
        · cases hlast
        · exact absurd ((canonicalEqual_eq_true_iff hlast).mpr
            (hresult (not_not.mp hverified))) (by simp)

/-- A permitted override is justified. -/
theorem Evaluated.overrideJustified (e : Evaluated sha256 input evaluation)
    (houtcome : input.outcome = .overridden) (hpermitted : evaluation.permitted = true)
    {effect : ObjectDescriptor} (heffect : e.context.subjects.effect = effect.value) :
    OverrideJustified e.context.policy effect input evaluation.failures := by
  obtain ⟨-, -, hresult, hproposal, hcompleteness, hknown⟩ := policyContext_eq_ok e.context_eq
  rw [e.permitted_eq, houtcome] at hpermitted
  simp only [permittedForOutcome, Bool.and_eq_true, Bool.not_eq_true', List.all_eq_true]
    at hpermitted
  obtain ⟨hsome, hall⟩ := hpermitted
  -- a list of failures that are never overrideable is empty
  have hnone : ∀ failures, AreFinal failures → (∀ f ∈ failures, f ∈ evaluation.failures) →
      failures = [] := by
    intro failures hfinal hsub
    refine List.eq_nil_iff_forall_not_mem.mpr fun f hf => ?_
    exact absurd ((hall f (hsub f hf)).symm.trans (hfinal f hf)) (by decide)
  have hmem : ∀ f, f ∈ evaluation.failures ↔
      f ∈ policyFailures e.context.policy e.context.proposal e.context.scope e.acceptable ∨
      f ∈ authorizationFailures .overridden e.context.policy e.facts ∨
      f ∈ overrideRationaleFailure .overridden input.rationale := by
    intro f
    rw [e.failures_eq, e.checks_eq, houtcome, List.mem_append, List.mem_append, or_assoc]
  have hscope := scopeFailures_eq_nil <| hnone _ (areFinal_scopeFailures e.context.scope)
    fun f hf => (hmem f).mpr (.inl (by simp [policyFailures, hf]))
  obtain ⟨hverified, hfalse⟩ := replayFailures_eq_nil <|
    hnone _ (areFinal_replayFailures e.acceptable.replay)
      fun f hf => (hmem f).mpr (.inl (by simp [policyFailures, hf]))
  obtain ⟨hauthorized, hself⟩ := authorizationFailures_eq_nil <|
    hnone _ (areFinal_authorizationFailures .overridden e.context.policy e.facts)
      fun f hf => (hmem f).mpr (.inr (.inl hf))
  have hrationale := overrideRationaleFailure_eq_nil <|
    hnone _ (areFinal_overrideRationaleFailure .overridden input.rationale)
      fun f hf => (hmem f).mpr (.inr (.inr hf))
  constructor
  · exact (selectorMatches_eq_true_iff e.override_eq).mp hauthorized
  · rw [← hcompleteness]
    exact hknown.resolve_right hscope
  · obtain ⟨o, ho, houtcome⟩ := List.any_eq_true.mp hverified
    have hv := of_decide_eq_true houtcome
    obtain ⟨hstatement, htrusted, hexact⟩ := (e.mem_replay heffect o).mp ho
    exact ⟨o, hstatement, htrusted, hv, hresult ▸ hexact hv⟩
  · intro o ho htrusted hf
    have hreplay : o ∈ e.acceptable.replay := by
      refine (e.mem_replay heffect o).mpr ⟨ho, htrusted, fun hv => ?_⟩
      rw [hf] at hv
      exact absurd hv (by decide)
    have htrue : hasOutcome "false" e.acceptable.replay = true :=
      List.any_eq_true.mpr ⟨o, hreplay, decide_eq_true hf⟩
    rw [hfalse] at htrue
    cases htrue
  · rwa [e.proposer_eq, hproposal] at hself
  · exact hrationale
  · refine ⟨fun hnil => by simp [hnil] at hsome, fun f hf => ⟨hall f hf, ?_⟩⟩
    rw [← e.areMarked f hf]
    exact hall f hf

end

/-- The discipline of an evaluator. -/
structure Disciplined (sha256 : List UInt8 → JsString) : Prop where
  /-- An acceptance and an override are not both permitted. -/
  exclusive : ∀ (input : EvaluateAcceptanceInput) (r r' : StringClaim) (accept override),
    evaluateAcceptance sha256 { input with outcome := .accepted, rationale := r } = .ok accept →
    evaluateAcceptance sha256 { input with outcome := .overridden, rationale := r' } = .ok override →
    ¬ (accept.permitted = true ∧ override.permitted = true)
  /-- A permitted override is justified. -/
  justified : ∀ (input : EvaluateAcceptanceInput) (evaluation : PolicyEvaluation),
    evaluateAcceptance sha256 input = .ok evaluation → input.outcome = .overridden →
    evaluation.permitted = true → ∃ policy effect,
      parseAcceptancePolicy input.policy = .ok policy ∧
      describeProtocolObject sha256 input.effect = .ok effect ∧
      OverrideJustified policy effect input evaluation.failures

/-- The evaluation never permits both outcomes and permits an override only when it is
justified. -/
theorem evaluateAcceptance_disciplined (sha256 : List UInt8 → JsString) : Disciplined sha256 := by
  constructor
  · intro input r r' accept override haccept hoverride
    exact not_accepted_and_overridden haccept hoverride
  · intro input evaluation h houtcome hpermitted
    obtain ⟨e⟩ := nonempty_evaluated h
    obtain ⟨hpolicy, ⟨effect, hdescribe, heffect⟩, -⟩ := policyContext_eq_ok e.context_eq
    exact ⟨e.context.policy, effect, hpolicy, hdescribe,
      e.overrideJustified houtcome hpermitted heffect⟩

end T3x.Decision
