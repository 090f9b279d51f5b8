import T3x.Decision.Adverse

/-!
# Policies that strengthen others

A policy strengthens another when it trusts and authorizes the same, lets nothing pass
that the other does not, and adds checks only whose failures no override passes over.
What is accepted or overridden under it is so under the other.
-/

namespace T3x.Decision

open Js Transition

/-- A policy is at least as strong as another. -/
structure Strengthens (strong base : AcceptancePolicy) : Prop where
  /-- The same actors may decide. -/
  decides : strong.decide = base.decide
  /-- The same actors may override. -/
  overrides : strong.override = base.override
  /-- A proposer who may approve here may do so there. -/
  selfApproval : strong.allowSelfApproval = true → base.allowSelfApproval = true
  /-- The same is required of every claim. -/
  claims : ∀ name, strong.claim name = base.claim name
  /-- The same replays are trusted. -/
  replay : strong.replay = base.replay
  /-- The same confirmations are trusted. -/
  confirmers : strong.confirmers = base.confirmers
  /-- The same validations are trusted. -/
  validation : strong.validation =
    { base.validation with isRequired := strong.validation.isRequired }
  /-- A validation that is required there is required here. -/
  required : base.validation.isRequired = true → strong.validation.isRequired = true
  /-- Where only this policy requires a validation, no override does without it. -/
  requiredFinal : strong.validation.isRequired = true →
    base.validation.isRequired = true ∨ strong.allows "allowMissingValidation" = false
  /-- The same runners are trusted, or only this policy has a rule for them, and no override
  passes over its failures. -/
  runner : strong.runner = base.runner ∨ base.runner = none ∧
    strong.allows "allowFailedRunner" = false ∧ strong.allows "allowMissingRunner" = false
  /-- What an override may pass over here it may pass over there. -/
  allows : ∀ name, strong.allows name = true → base.allows name = true

/-- A policy is as strong as itself. -/
theorem Strengthens.refl (policy : AcceptancePolicy) : Strengthens policy policy where
  decides := rfl
  overrides := rfl
  selfApproval := id
  claims _ := rfl
  replay := rfl
  confirmers := rfl
  validation := rfl
  required := id
  requiredFinal := .inl
  runner := .inl rfl
  allows _ := id

/-- What strengthens a policy that strengthens another strengthens this too. -/
theorem Strengthens.trans {strong middle base : AcceptancePolicy}
    (h : Strengthens strong middle) (h' : Strengthens middle base) : Strengthens strong base where
  decides := h.decides.trans h'.decides
  overrides := h.overrides.trans h'.overrides
  selfApproval := h'.selfApproval ∘ h.selfApproval
  claims name := (h.claims name).trans (h'.claims name)
  replay := h.replay.trans h'.replay
  confirmers := h.confirmers.trans h'.confirmers
  validation := by
    have hmiddle := h.validation
    rw [h'.validation] at hmiddle
    exact hmiddle
  required := h.required ∘ h'.required
  requiredFinal := by
    intro hstrong
    rcases h.requiredFinal hstrong with hmiddle | hfinal
    · rcases h'.requiredFinal hmiddle with hbase | hfinal
      · exact .inl hbase
      · refine .inr (Bool.eq_false_iff.mpr fun hallows => ?_)
        exact Bool.eq_false_iff.mp hfinal (h.allows _ hallows)
    · exact .inr hfinal
  runner := by
    rcases h.runner with heq | ⟨hnone, hfinal⟩
    · rw [heq]
      rcases h'.runner with heq' | ⟨hnone, hfailed, hmissing⟩
      · exact .inl heq'
      · refine .inr ⟨hnone, Bool.eq_false_iff.mpr fun hallows => ?_,
          Bool.eq_false_iff.mpr fun hallows => ?_⟩
        · exact Bool.eq_false_iff.mp hfailed (h.allows _ hallows)
        · exact Bool.eq_false_iff.mp hmissing (h.allows _ hallows)
    · rcases h'.runner with heq' | ⟨hnone', -⟩
      · exact .inr ⟨heq' ▸ hnone, hfinal⟩
      · exact .inr ⟨hnone', hfinal⟩
  allows name := h'.allows name ∘ h.allows name

/-! ## What is collected -/

variable {sha256 : List UInt8 → JsString} {strong base : AcceptancePolicy} {subjects : Subjects}

/-- A policy without a rule for runners finds no more statements relevant. -/
theorem isRelevant_of_runner_eq_none {statement : JsValue} {b : Bool} (hnone : base.runner = none)
    (h : isRelevant strong subjects statement = .ok b) :
    ∃ b', isRelevant base subjects statement = .ok b' ∧ (b' = true → b = true) := by
  obtain ⟨replay, hreplay, h⟩ := bind_eq_ok_iff.mp h
  obtain ⟨validation, hvalidation, h⟩ := bind_eq_ok_iff.mp h
  obtain ⟨runner, -, h⟩ := bind_eq_ok_iff.mp h
  obtain ⟨confirmation, hconfirmation, h⟩ := bind_eq_ok_iff.mp h
  obtain rfl := Except.ok.inj h
  refine ⟨replay || validation || false || confirmation, ?_, ?_⟩
  · have hrunner : ∀ x : Except ProtocolError Bool,
        andThen (.ok base.runner.isSome) x = .ok false := by
      intro x
      rw [hnone]
      rfl
    exact bind_eq_ok_iff.mpr ⟨replay, hreplay, bind_eq_ok_iff.mpr ⟨validation, hvalidation,
      bind_eq_ok_iff.mpr ⟨false, hrunner _, bind_eq_ok_iff.mpr ⟨confirmation, hconfirmation, rfl⟩⟩⟩⟩
  · simp only [Bool.or_eq_true, Bool.false_eq_true, or_false]
    rintro ((h | h) | h)
    · exact .inl (.inl (.inl h))
    · exact .inl (.inl (.inr h))
    · exact .inr h

/-- A statement that is collected under a stronger policy is collected under the other. -/
theorem Strengthens.exists_collectOne (hstrong : Strengthens strong base)
    {observation : StatementObservation} {one : Collected}
    (h : collectOne sha256 strong subjects observation = .ok one) :
    ∃ one', collectOne sha256 base subjects observation = .ok one' := by
  obtain ⟨statement, hstatement, h⟩ := bind_eq_ok_iff.mp h
  obtain ⟨relevant, hrelevant, h⟩ := bind_eq_ok_iff.mp h
  rcases hstrong.runner with heq | ⟨hnone, -⟩
  · refine ⟨one, bind_eq_ok_iff.mpr ⟨statement, hstatement,
      bind_eq_ok_iff.mpr ⟨relevant, ?_, h⟩⟩⟩
    rw [isRelevant, ← heq]
    exact hrelevant
  · obtain ⟨relevant', hrelevant', himp⟩ := isRelevant_of_runner_eq_none hnone hrelevant
    cases relevant' with
    | false => exact ⟨{}, bind_eq_ok_iff.mpr ⟨statement, hstatement,
        bind_eq_ok_iff.mpr ⟨false, hrelevant', rfl⟩⟩⟩
    | true =>
      obtain rfl := himp rfl
      exact ⟨one, bind_eq_ok_iff.mpr ⟨statement, hstatement,
        bind_eq_ok_iff.mpr ⟨true, hrelevant', h⟩⟩⟩

/-- The statements that are collected for a profile. -/
theorem mem_part_collect {policy : AcceptancePolicy} {statements : List StatementObservation}
    {collected : Collected} (h : collect sha256 policy subjects statements = .ok collected)
    (profile : Profile) (observation : StatementObservation) :
    observation ∈ collected.part profile ↔ observation ∈ statements ∧
      predicateTypeOf observation.statement = profile.predicateType ∧
      IsAbout observation.statement (subjects.of profile) ∧
      (profile = .runner → policy.runner.isSome = true) := by
  rw [mem_collect (Collected.part · profile) (by cases profile <;> rfl)
    (fun a b => by cases profile <;> rfl) h]
  constructor
  · rintro ⟨other, hother, one, hone, hmem⟩
    obtain ⟨rfl, hrest⟩ := (mem_part_collectOne hone profile observation).mp hmem
    exact ⟨hother, hrest⟩
  · rintro ⟨hmem, hrest⟩
    obtain ⟨one, hone⟩ := exists_collect_iff.mp ⟨_, h⟩ observation hmem
    exact ⟨observation, hmem, one, hone, (mem_part_collectOne hone profile observation).mpr
      ⟨rfl, hrest⟩⟩

/-- The statements of every other profile are matched alike. -/
theorem Strengthens.matches_eq (hstrong : Strengthens strong base) (result : JsValue)
    {profile : Profile} (hprofile : profile ≠ .runner ∨ strong.runner = base.runner) :
    strong.matches result profile = base.matches result profile := by
  cases profile with
  | replay => rw [AcceptancePolicy.matches, hstrong.replay]; rfl
  | validation => rw [AcceptancePolicy.matches, hstrong.validation]; rfl
  | runner =>
    unfold AcceptancePolicy.matches
    rw [hprofile.resolve_left (not_not.mpr rfl)]
  | humanConfirmation => rw [AcceptancePolicy.matches, hstrong.confirmers]; rfl

/-- What is collected for a profile under a stronger policy is collected under the other, but
for runners of which the other knows nothing. -/
theorem mem_part_collect_iff {statements : List StatementObservation}
    {collected collected' : Collected}
    (h : collect sha256 strong subjects statements = .ok collected)
    (h' : collect sha256 base subjects statements = .ok collected') {profile : Profile}
    (hprofile : profile ≠ .runner ∨ strong.runner = base.runner)
    (observation : StatementObservation) :
    observation ∈ collected.part profile ↔ observation ∈ collected'.part profile := by
  rw [mem_part_collect h, mem_part_collect h']
  rcases hprofile with hother | heq
  · simp only [hother, false_implies]
  · rw [heq]

/-- The statements that are acceptable under a stronger policy are so under the other, but for
runners of which the other knows nothing, and of these it accepts none. -/
theorem Strengthens.exists_acceptableOf (hstrong : Strengthens strong base) {result : JsValue}
    {statements : List StatementObservation} {collected collected' : Collected}
    {acceptable : Acceptable} (h : collect sha256 strong subjects statements = .ok collected)
    (h' : collect sha256 base subjects statements = .ok collected')
    (hacceptable : acceptableOf strong result collected = .ok acceptable) :
    ∃ acceptable', acceptableOf base result collected' = .ok acceptable' ∧
      ∀ profile : Profile, profile ≠ .runner ∨ strong.runner = base.runner →
        ∀ observation, observation ∈ acceptable.part profile ↔
          observation ∈ acceptable'.part profile := by
  have hkept := acceptableOf_eq_ok_iff.mp hacceptable
  have hkeep : ∀ profile, ∃ kept, keep (base.matches result profile) (collected'.part profile) =
      .ok kept := by
    intro profile
    by_cases hprofile : profile ≠ .runner ∨ strong.runner = base.runner
    · refine exists_keep_iff.mpr fun observation hmem => ?_
      rw [← hstrong.matches_eq result hprofile]
      exact exists_keep_iff.mp ⟨_, hkept profile⟩ observation
        ((mem_part_collect_iff h h' hprofile observation).mpr hmem)
    · rw [not_or, not_not] at hprofile
      obtain ⟨rfl, hne⟩ := hprofile
      have hnone := (hstrong.runner.resolve_left hne).1
      refine ⟨[], ?_⟩
      rw [← acceptableRunner_eq, acceptableRunner, hnone]
      rfl
  choose kept hkept' using hkeep
  refine ⟨⟨kept .replay, kept .validation, kept .runner, kept .humanConfirmation⟩,
    acceptableOf_eq_ok_iff.mpr fun profile => by cases profile <;> exact hkept' _, ?_⟩
  intro profile hprofile observation
  have hpart : Acceptable.part ⟨kept .replay, kept .validation, kept .runner,
      kept .humanConfirmation⟩ profile = kept profile := by cases profile <;> rfl
  rw [hpart, mem_keep (hkept profile), mem_keep (hkept' profile),
    hstrong.matches_eq result hprofile, mem_part_collect_iff h h' hprofile]

/-! ## The failures -/

/-- A failure that an override may pass over here is one that it may pass over there. -/
def Softer (here there : PolicyFailure) : Prop :=
  here.overrideable = true → there.overrideable = true

variable {failures failures' more more' : List PolicyFailure}

/-- Softer lists follow each other. -/
theorem softer_append (h : List.Forall₂ Softer failures failures')
    (h' : List.Forall₂ Softer more more') :
    List.Forall₂ Softer (failures ++ more) (failures' ++ more') :=
  List.rel_append h h'

/-- A list is as soft as itself. -/
theorem softer_refl (failures : List PolicyFailure) : List.Forall₂ Softer failures failures :=
  List.forall₂_same.mpr fun _ _ => id

/-- One failure under one condition. -/
theorem softer_ite {c : Prop} [Decidable c] {here there : PolicyFailure} (h : Softer here there) :
    List.Forall₂ Softer (if c then [here] else []) (if c then [there] else []) := by
  split
  · exact .cons h .nil
  · exact .nil

/-- What is permitted in spite of its failures is permitted in spite of softer ones. -/
theorem permittedForOutcome_of_softer {outcome : RequestedDecisionOutcome}
    (houtcome : outcome ≠ .rejected) (h : List.Forall₂ Softer failures failures')
    (hpermitted : permittedForOutcome outcome failures = true) :
    permittedForOutcome outcome failures' = true := by
  cases outcome with
  | rejected => exact absurd rfl houtcome
  | accepted =>
    obtain rfl := List.isEmpty_iff.mp hpermitted
    cases h
    rfl
  | overridden =>
    simp only [permittedForOutcome, Bool.and_eq_true, Bool.not_eq_true', List.isEmpty_eq_false_iff,
      List.all_eq_true] at hpermitted ⊢
    refine ⟨?_, ?_⟩
    · rintro rfl
      cases h
      exact hpermitted.1 rfl
    · have hall := hpermitted.2
      clear hpermitted
      induction h with
      | nil => simp
      | cons hsofter _ ih =>
        rw [List.forall_mem_cons] at hall ⊢
        exact ⟨hsofter hall.1, ih hall.2⟩

/-- What is accepted or overridden has no failures that stand in its way. -/
theorem overrideable_of_permitted {outcome : RequestedDecisionOutcome}
    (houtcome : outcome ≠ .rejected) (hpermitted : permittedForOutcome outcome failures = true)
    {failure : PolicyFailure} (hmem : failure ∈ failures) : failure.overrideable = true := by
  cases outcome with
  | rejected => exact absurd rfl houtcome
  | accepted =>
    obtain rfl := List.isEmpty_iff.mp hpermitted
    cases hmem
  | overridden =>
    simp only [permittedForOutcome, Bool.and_eq_true, List.all_eq_true] at hpermitted
    exact hpermitted.2 failure hmem

/-- The claims fail alike. -/
theorem Strengthens.softer_claimFailures (hstrong : Strengthens strong base) (proposal : JsValue)
    {confirmations confirmations' : List StatementObservation}
    (hconfirms : ∀ name, confirmations.any (confirms name) = confirmations'.any (confirms name)) :
    List.Forall₂ Softer (claimFailures proposal strong confirmations)
      (claimFailures proposal base confirmations') := by
  have hname : ∀ name, List.Forall₂ Softer (claimFailuresOf proposal strong confirmations name)
      (claimFailuresOf proposal base confirmations' name) := by
    intro name
    simp only [claimFailuresOf, hstrong.claims, hconfirms]
    refine softer_append (softer_append ?_ ?_) ?_
    · split
      · exact .nil
      · exact .cons (hstrong.allows _) .nil
    · exact softer_ite (hstrong.allows _)
    · exact softer_ite (hstrong.allows _)
  simp only [claimFailures, List.flatMap_cons, List.flatMap_nil, List.append_nil]
  exact softer_append (hname _) (hname _)

/-- A check fails alike, unless it is required here only and its failure is final. -/
theorem softer_checkFailures {texts texts' : CheckTexts} {isRequired isRequired' : Bool}
    {acceptable acceptable' : List StatementObservation}
    (houtcome : ∀ outcome, hasOutcome outcome acceptable = hasOutcome outcome acceptable')
    (hfailed : texts.allowFailed = true → texts'.allowFailed = true)
    (hmissing : texts.allowMissing = true → texts'.allowMissing = true)
    (hrequired : isRequired' = true → isRequired = true)
    (hfinal : isRequired = true → isRequired' = true ∨ texts.allowMissing = false)
    (hall : ∀ failure ∈ checkFailures texts isRequired acceptable, failure.overrideable = true) :
    List.Forall₂ Softer (checkFailures texts isRequired acceptable)
      (checkFailures texts' isRequired' acceptable') := by
  unfold checkFailures at hall ⊢
  rw [← houtcome, ← houtcome]
  split
  · exact .cons hfailed .nil
  · split
    · exact .cons hfailed .nil
    · rename_i hconflict hfail
      rw [if_neg hconflict, if_neg hfail] at hall
      by_cases hmiss : (isRequired && !hasOutcome "passed" acceptable) = true
      · rw [if_pos hmiss] at hall ⊢
        have hallow : texts.allowMissing = true := hall _ List.mem_cons_self
        rw [Bool.and_eq_true] at hmiss
        have hhere : isRequired' = true := by
          refine (hfinal hmiss.1).resolve_right fun hnot => ?_
          rw [hallow] at hnot
          cases hnot
        rw [if_pos (by rw [hhere, hmiss.2]; rfl)]
        exact .cons hmissing .nil
      · rw [if_neg hmiss, if_neg]
        · exact .nil
        · intro hother
          rw [Bool.and_eq_true] at hother hmiss
          exact hmiss ⟨hrequired hother.1, hother.2⟩

/-- A check all of whose failures are final fails in none of them if all may be passed over. -/
theorem checkFailures_eq_nil_of_final {texts : CheckTexts} {isRequired : Bool}
    {acceptable : List StatementObservation} (hfailed : texts.allowFailed = false)
    (hmissing : texts.allowMissing = false)
    (hall : ∀ failure ∈ checkFailures texts isRequired acceptable, failure.overrideable = true) :
    checkFailures texts isRequired acceptable = [] := by
  unfold checkFailures at hall ⊢
  split_ifs at hall ⊢
  · exact absurd (hall _ List.mem_cons_self) (Bool.eq_false_iff.mp hfailed)
  · exact absurd (hall _ List.mem_cons_self) (Bool.eq_false_iff.mp hfailed)
  · exact absurd (hall _ List.mem_cons_self) (Bool.eq_false_iff.mp hmissing)
  · rfl

/-- An actor's authority leaves no failure, or it leaves one that is final. -/
theorem Strengthens.softer_authorizationFailures (hstrong : Strengthens strong base)
    (outcome : RequestedDecisionOutcome) {facts facts' : EvaluationFacts}
    (hdecide : facts'.actorAuthorizedToDecide = facts.actorAuthorizedToDecide)
    (hoverride : facts'.actorAuthorizedToOverride = facts.actorAuthorizedToOverride)
    (hproposer : facts'.actorIsProposer = facts.actorIsProposer)
    (hall : ∀ failure ∈ authorizationFailures outcome strong facts,
      failure.overrideable = true) :
    List.Forall₂ Softer (authorizationFailures outcome strong facts)
      (authorizationFailures outcome base facts') := by
  unfold authorizationFailures at hall ⊢
  rw [hdecide, hoverride, hproposer]
  refine softer_append (softer_refl _) ?_
  split
  · exact absurd (hall _ (List.mem_append_right _ (by rw [if_pos ‹_›]; exact List.mem_cons_self)))
      Bool.false_ne_true
  · rename_i hnot
    rw [if_neg]
    · exact .nil
    · rintro ⟨houtcome, hself, hbase⟩
      refine hnot ⟨houtcome, hself, Bool.eq_false_iff.mpr fun hallows => ?_⟩
      exact Bool.eq_false_iff.mp hbase (hstrong.selfApproval hallows)

/-- Where every failure of the checks may be passed over, they fail alike. -/
theorem Strengthens.softer_policyFailures (hstrong : Strengthens strong base) (proposal : JsValue)
    (scope : ObservationScope) {acceptable acceptable' : Acceptable}
    (hsame : ∀ profile : Profile, profile ≠ .runner ∨ strong.runner = base.runner →
      ∀ observation, observation ∈ acceptable.part profile ↔
        observation ∈ acceptable'.part profile)
    (hall : ∀ failure ∈ policyFailures strong proposal scope acceptable,
      failure.overrideable = true) :
    List.Forall₂ Softer (policyFailures strong proposal scope acceptable)
      (policyFailures base proposal scope acceptable') := by
  have hany : ∀ profile : Profile, profile ≠ .runner ∨ strong.runner = base.runner →
      ∀ test : StatementObservation → Bool,
        (acceptable.part profile).any test = (acceptable'.part profile).any test := by
    intro profile hprofile test
    rw [Bool.eq_iff_iff, List.any_eq_true, List.any_eq_true]
    simp only [hsame profile hprofile]
  have hreplay : replayFailures acceptable.replay = replayFailures acceptable'.replay := by
    have houtcome : ∀ outcome, hasOutcome outcome acceptable.replay =
        hasOutcome outcome acceptable'.replay :=
      fun outcome => hany .replay (.inl (by rintro ⟨⟩)) _
    simp only [replayFailures, houtcome]
  unfold policyFailures at hall ⊢
  simp only [List.mem_append] at hall
  rw [← hreplay]
  refine softer_append (softer_append (softer_append (softer_append ?_ ?_) ?_) ?_) ?_
  · exact hstrong.softer_claimFailures proposal
      fun name => hany .humanConfirmation (.inl (by rintro ⟨⟩)) _
  · exact softer_refl _
  · exact softer_refl _
  · refine softer_checkFailures ?_ (hstrong.allows _) (hstrong.allows _) hstrong.required
      hstrong.requiredFinal fun failure hmem => hall failure (.inl (.inr hmem))
    exact fun outcome => hany .validation (.inl (by rintro ⟨⟩)) _
  · rcases hstrong.runner with heq | ⟨hnone, hfailed, hmissing⟩
    · rw [← heq]
      cases hrule : strong.runner with
      | none => exact .nil
      | some rule =>
        rw [hrule] at hall
        refine softer_checkFailures ?_ (hstrong.allows _) (hstrong.allows _) id .inl
          fun failure hmem => hall failure (.inr hmem)
        exact fun outcome => hany .runner (.inr heq) _
    · -- The rule is this policy's alone, and all its failures are final.
      rw [hnone]
      cases hrule : strong.runner with
      | none => exact .nil
      | some rule =>
        rw [hrule] at hall
        change List.Forall₂ Softer (checkFailures _ _ _) []
        rw [checkFailures_eq_nil_of_final hfailed hmissing
          fun failure hmem => hall failure (.inr hmem)]
        exact .nil

/-! ## The verdict -/

/-- The context of an evaluation under another policy. -/
theorem policyContext_of_policy {input : EvaluateAcceptanceInput} {policy resource : JsValue}
    {context : PolicyContext} {resource' : JsValue}
    (h : policyContext sha256 { input with policy := policy, policyResource := resource } =
      .ok context) (hbase : parseAcceptancePolicy input.policy = .ok base)
    (hresource : verifyAcceptancePolicyResource sha256 base input.policyResource = .ok resource') :
    policyContext sha256 input = .ok { context with policy := base, resource := resource' } := by
  obtain ⟨parsed, -, h⟩ := bind_eq_ok_iff.mp h
  obtain ⟨verified, -, h⟩ := bind_eq_ok_iff.mp h
  obtain ⟨proposal, hproposal, h⟩ := bind_eq_ok_iff.mp h
  obtain ⟨effect, heffect, h⟩ := bind_eq_ok_iff.mp h
  obtain ⟨scope, hscope, h⟩ := bind_eq_ok_iff.mp h
  obtain ⟨effectDescriptor, heffectDescriptor, h⟩ := bind_eq_ok_iff.mp h
  obtain ⟨about, habout, h⟩ := bind_eq_ok_iff.mp h
  obtain ⟨hsubject, h⟩ := refuse_eq_ok_iff.mp h
  obtain ⟨proposalDescriptor, hproposalDescriptor, h⟩ := bind_eq_ok_iff.mp h
  obtain rfl := Except.ok.inj h
  exact bind_eq_ok_iff.mpr ⟨base, hbase, bind_eq_ok_iff.mpr ⟨resource', hresource,
    bind_eq_ok_iff.mpr ⟨proposal, hproposal, bind_eq_ok_iff.mpr ⟨effect, heffect,
    bind_eq_ok_iff.mpr ⟨scope, hscope, bind_eq_ok_iff.mpr ⟨effectDescriptor, heffectDescriptor,
    bind_eq_ok_iff.mpr ⟨about, habout, refuse_eq_ok_iff.mpr ⟨hsubject,
    bind_eq_ok_iff.mpr ⟨proposalDescriptor, hproposalDescriptor, rfl⟩⟩⟩⟩⟩⟩⟩⟩⟩

/-- The policy of a context is that of its input. -/
theorem policy_of_policyContext {input : EvaluateAcceptanceInput} {context : PolicyContext}
    {policy : AcceptancePolicy} {resource : JsValue} (h : policyContext sha256
      { input with policy := policy.data, policyResource := resource } = .ok context) :
    context.policy = policy := by
  have hparsed := (policyContext_eq_ok h).1
  rw [parseAcceptancePolicy, dif_pos policy.valid] at hparsed
  exact (Except.ok.inj hparsed).symm

/-- What may be accepted or overridden under a policy may be so under every policy that it
strengthens. -/
theorem Strengthens.permits (hstrong : Strengthens strong base) {input : EvaluateAcceptanceInput}
    {resource resource' : JsValue} (houtcome : input.outcome ≠ .rejected)
    (hbase : parseAcceptancePolicy input.policy = .ok base)
    (hresource : verifyAcceptancePolicyResource sha256 base input.policyResource = .ok resource')
    (h : Permits sha256 { input with policy := strong.data, policyResource := resource }) :
    Permits sha256 input := by
  obtain ⟨evaluation, h, hpermitted⟩ := h
  obtain ⟨context, hcontext, h⟩ := bind_eq_ok_iff.mp h
  obtain ⟨facts, hfacts, h⟩ := bind_eq_ok_iff.mp h
  obtain rfl := Except.ok.inj h
  obtain ⟨collected, hcollected, hfacts⟩ := bind_eq_ok_iff.mp hfacts
  obtain ⟨acceptable, hacceptable, hfacts⟩ := bind_eq_ok_iff.mp hfacts
  obtain ⟨decides, hdecides, hfacts⟩ := bind_eq_ok_iff.mp hfacts
  obtain ⟨overrides, hoverrides, hfacts⟩ := bind_eq_ok_iff.mp hfacts
  obtain rfl := Except.ok.inj hfacts
  have hcontext' := policyContext_of_policy hcontext hbase hresource
  obtain rfl := policy_of_policyContext hcontext
  obtain ⟨collected', hcollected'⟩ : ∃ collected', collect sha256 base context.subjects
      input.statements = .ok collected' := by
    refine exists_collect_iff.mpr fun observation hmem => ?_
    obtain ⟨one, hone⟩ := exists_collect_iff.mp ⟨_, hcollected⟩ observation hmem
    exact hstrong.exists_collectOne hone
  obtain ⟨acceptable', hacceptable', hsame⟩ :=
    hstrong.exists_acceptableOf hcollected hcollected' hacceptable
  rw [hstrong.decides] at hdecides
  rw [hstrong.overrides] at hoverrides
  refine ⟨_, bind_eq_ok_iff.mpr ⟨_, hcontext', bind_eq_ok_iff.mpr ⟨_, bind_eq_ok_iff.mpr
    ⟨collected', hcollected', bind_eq_ok_iff.mpr ⟨acceptable', hacceptable', bind_eq_ok_iff.mpr
      ⟨decides, hdecides, bind_eq_ok_iff.mpr ⟨overrides, hoverrides, rfl⟩⟩⟩⟩, rfl⟩⟩, ?_⟩
  have hall : ∀ failure : PolicyFailure, failure ∈ _ → failure.overrideable = true :=
    fun _ => overrideable_of_permitted houtcome hpermitted
  refine permittedForOutcome_of_softer houtcome ?_ hpermitted
  simp only [List.mem_append] at hall
  refine softer_append (softer_append ?_ ?_) (softer_refl _)
  · exact hstrong.softer_policyFailures _ _ hsame
      fun failure hmem => hall failure (.inl (.inl hmem))
  · exact hstrong.softer_authorizationFailures _ rfl rfl rfl
      fun failure hmem => hall failure (.inl (.inr hmem))

end T3x.Decision
