import T3x.Decision.Evidence

/-!
# Evidence that does not count

The verdict depends on the observed statements only as a set, and only on those
whose source the policy trusts. Both follow from one step: statements that are
collected without failure and that the policy's matchers reject change neither
the failures nor the verdict.
-/

namespace T3x.Decision

open Js Transition

variable {sha256 : List UInt8 → JsString}

/-! ## Descriptors -/

/-- The descriptor of the statement of a digest. -/
def statementDescriptor (digest : JsString) : ObjectDescriptor :=
  ⟨.statement, statementSchema, digest⟩

/-- The descriptors by digest hold the descriptors of the list. -/
theorem get_foldl_mapSet {descriptors : List ObjectDescriptor}
    (h : ∀ d ∈ descriptors, d = statementDescriptor d.digest) (map : Record ObjectDescriptor)
    (digest : JsString) :
    Record.get (descriptors.foldl (fun map d => Record.mapSet map d.digest d) map) digest =
      if digest ∈ descriptors.map ObjectDescriptor.digest then some (statementDescriptor digest)
      else Record.get map digest := by
  induction descriptors generalizing map with
  | nil => simp
  | cons d descriptors ih =>
    rw [List.foldl_cons, ih (fun e he => h e (List.mem_cons_of_mem _ he)), Record.get_mapSet,
      List.map_cons]
    by_cases hmem : digest ∈ descriptors.map ObjectDescriptor.digest
    · rw [if_pos hmem, if_pos (List.mem_cons_of_mem _ hmem)]
    · rw [if_neg hmem]
      by_cases hd : digest = d.digest
      · subst hd
        rw [if_pos rfl, if_pos List.mem_cons_self, ← h d List.mem_cons_self]
      · rw [if_neg hd, if_neg]
        simp only [List.mem_cons, hd, hmem, or_self, not_false_eq_true]

/-- The descriptors by digest are stored once each. -/
theorem nodup_foldl_mapSet (descriptors : List ObjectDescriptor) {map : Record ObjectDescriptor}
    (h : (map.map Prod.fst).Nodup) :
    ((descriptors.foldl (fun map d => Record.mapSet map d.digest d) map).map Prod.fst).Nodup := by
  induction descriptors generalizing map with
  | nil => exact h
  | cons d descriptors ih => exact ih (Record.nodup_mapSet h d.digest d)

/-- Sorting descriptors keeps their set: a list with the same members is sorted alike. -/
theorem sortDescriptors_congr {descriptors descriptors' : List ObjectDescriptor}
    (h : ∀ d ∈ descriptors, d = statementDescriptor d.digest)
    (h' : ∀ d ∈ descriptors', d = statementDescriptor d.digest)
    (hsame : SameMembers descriptors descriptors') :
    sortDescriptors descriptors = sortDescriptors descriptors' := by
  have hmem : ∀ digest, digest ∈ descriptors.map ObjectDescriptor.digest ↔
      digest ∈ descriptors'.map ObjectDescriptor.digest := by
    simp only [List.mem_map, sameMembers_iff.mp hsame, implies_true]
  -- both lists are the values of one record, sorted by name
  have hsorted : ∀ ds : List ObjectDescriptor, (∀ d ∈ ds, d = statementDescriptor d.digest) →
      sortDescriptors ds = (Record.sorted compareCodeUnits
        (ds.foldl (fun map d => Record.mapSet map d.digest d) [])).map Prod.snd := by
    intro ds hds
    have hnodup : ((ds.foldl (fun map d => Record.mapSet map d.digest d)
        ([] : Record ObjectDescriptor)).map Prod.fst).Nodup :=
      nodup_foldl_mapSet ds List.nodup_nil
    unfold sortDescriptors Record.sorted sortBy
    rw [Record.entries_of_nodup hnodup]
    refine (List.map_mergeSort ?_).symm
    have hname : ∀ e ∈ ds.foldl (fun map d => Record.mapSet map d.digest d) [],
        e.2.digest = e.1 := by
      intro e he
      have hget := Record.get_eq_some_of_mem hnodup he
      rw [get_foldl_mapSet hds] at hget
      split_ifs at hget
      · rw [← Option.some.inj hget]
        rfl
      · cases hget
    intro e he e' he'
    simp only [hname e he, hname e' he']
  rw [hsorted _ h, hsorted _ h', Record.sorted_congr isStringOrder_compareCodeUnits]
  intro digest
  rw [get_foldl_mapSet h, get_foldl_mapSet h']
  simp only [hmem]

/-- The descriptor of a statement is one of a statement. -/
theorem eq_statementDescriptor {statement : JsValue} {d : ObjectDescriptor}
    (hparse : parseStatement statement = .ok statement)
    (hdescribed : describeProtocolObject sha256 statement = .ok d) :
    d = statementDescriptor d.digest := by
  obtain ⟨bytes, -, hkind, -⟩ := describeProtocolObject_eq_ok_iff.mp hdescribed
  rw [(object_of_parseStatement hparse).2.1] at hkind
  obtain ⟨kind, schema, digest⟩ := d
  obtain ⟨rfl, rfl⟩ := Prod.mk.inj (Option.some.inj hkind)
  rfl

/-- A collected descriptor is that of the observed statement. -/
theorem described_of_collectOne {policy : AcceptancePolicy} {subjects : Subjects}
    {observation : StatementObservation} {one : Collected}
    (h : collectOne sha256 policy subjects observation = .ok one) {d : ObjectDescriptor}
    (hd : d ∈ one.considered) : parseStatement observation.statement = .ok observation.statement ∧
      describeProtocolObject sha256 observation.statement = .ok d := by
  have hparse : parseStatement observation.statement = .ok observation.statement := by
    obtain ⟨parsed, hparsed, -⟩ := bind_eq_ok_iff.mp h
    obtain rfl := parseStatement_returns _ parsed hparsed
    exact hparsed
  refine ⟨hparse, ?_⟩
  rcases collectOne_cases h with ⟨-, rfl⟩ | ⟨-, descriptor, hdescriptor, hone⟩
  · exact absurd hd List.not_mem_nil
  · rcases hone with ⟨-, rfl⟩ | ⟨profile, -, -, rfl⟩
    · rwa [List.mem_singleton.mp hd]
    · cases profile <;> rwa [List.mem_singleton.mp hd]

/-- The descriptor of a collected statement is one of a statement. -/
theorem considered_of_collectOne {policy : AcceptancePolicy} {subjects : Subjects}
    {observation : StatementObservation} {one : Collected}
    (h : collectOne sha256 policy subjects observation = .ok one) :
    ∀ d ∈ one.considered, d = statementDescriptor d.digest := by
  intro d hd
  obtain ⟨hparse, hdescribed⟩ := described_of_collectOne h hd
  exact eq_statementDescriptor hparse hdescribed

/-! ## Statements without influence -/

/-- The statement is collected, and the policy accepts nothing of what it adds. -/
def IsInert (sha256 : List UInt8 → JsString) (policy : AcceptancePolicy) (subjects : Subjects)
    (observation : StatementObservation) : Prop :=
  ∃ one, collectOne sha256 policy subjects observation = .ok one ∧
    ∀ profile, ∀ o ∈ one.part profile, policy.matches subjects.result profile o = .ok false

/-- Collecting further statements without influence adds only rejected ones. -/
theorem collect_agree {policy : AcceptancePolicy} {subjects : Subjects}
    {P : StatementObservation → Prop} {observations observations' : List StatementObservation}
    (h : Adds P observations observations') (hP : ∀ o, P o → IsInert sha256 policy subjects o) :
    Agree (fun c c' => ∀ profile,
        Adds (fun o => policy.matches subjects.result profile o = .ok false)
          (c.part profile) (c'.part profile))
      (collect sha256 policy subjects observations)
      (collect sha256 policy subjects observations') := by
  have hmem : ∀ profile {l : List StatementObservation} {c : Collected},
      collect sha256 policy subjects l = .ok c → ∀ x, x ∈ c.part profile ↔ ∃ o ∈ l, ∃ one,
        collectOne sha256 policy subjects o = .ok one ∧ x ∈ one.part profile := by
    intro profile l c hc x
    exact mem_collect (Collected.part · profile) (by cases profile <;> rfl)
      (fun a b => by cases profile <;> rfl) hc x
  apply Agree.of_forall
  · intro c hc
    have hall := exists_collect_iff.mp ⟨c, hc⟩
    obtain ⟨c', hc'⟩ : ∃ c', collect sha256 policy subjects observations' = .ok c' := by
      refine exists_collect_iff.mpr fun o ho => ?_
      rcases h.added o ho with hold | hnew
      · exact hall o hold
      · obtain ⟨one, hone, -⟩ := hP o hnew
        exact ⟨one, hone⟩
    refine ⟨c', hc', fun profile => ⟨fun x hx => ?_, fun x hx => ?_⟩⟩
    · obtain ⟨o, ho, one, hone, hx⟩ := (hmem profile hc x).mp hx
      exact (hmem profile hc' x).mpr ⟨o, h.kept o ho, one, hone, hx⟩
    · obtain ⟨o, ho, one, hone, hx⟩ := (hmem profile hc' x).mp hx
      rcases h.added o ho with hold | hnew
      · exact .inl ((hmem profile hc x).mpr ⟨o, hold, one, hone, hx⟩)
      · obtain ⟨one', hone', hinert⟩ := hP o hnew
        obtain rfl := Except.ok.inj (hone.symm.trans hone')
        exact .inr (hinert profile x hx)
  · intro c' hc'
    have hall := exists_collect_iff.mp ⟨c', hc'⟩
    exact exists_collect_iff.mpr fun o ho => hall o (h.kept o ho)

/-- Of lists that differ by rejected statements the same are acceptable. -/
theorem acceptableOf_agree {policy : AcceptancePolicy} {result : JsValue} {c c' : Collected}
    (h : ∀ profile, Adds (fun o => policy.matches result profile o = .ok false)
      (c.part profile) (c'.part profile)) :
    Agree (fun a a' => ∀ profile, SameMembers (Acceptable.part a profile) (a'.part profile))
      (acceptableOf policy result c) (acceptableOf policy result c') := by
  have hkeep : ∀ profile, Agree SameMembers (keep (policy.matches result profile) (c.part profile))
      (keep (policy.matches result profile) (c'.part profile)) :=
    fun profile => (h profile).keep fun _ hrejected => hrejected
  apply Agree.of_forall
  · intro a ha
    have hparts := acceptableOf_eq_ok_iff.mp ha
    choose kept hkept hsame using fun profile => (hkeep profile).of_ok (hparts profile)
    refine ⟨⟨kept .replay, kept .validation, kept .runner, kept .humanConfirmation⟩, ?_, ?_⟩
    · refine acceptableOf_eq_ok_iff.mpr fun profile => ?_
      cases profile <;> exact hkept _
    · intro profile
      cases profile <;> exact hsame _
  · intro a' ha'
    have hparts := acceptableOf_eq_ok_iff.mp ha'
    have hback : ∀ profile, ∃ kept, keep (policy.matches result profile) (c.part profile) =
        .ok kept := by
      intro profile
      have hall := exists_keep_iff.mp ⟨_, hparts profile⟩
      exact exists_keep_iff.mpr fun o ho => hall o ((h profile).kept o ho)
    choose kept hkept using hback
    refine ⟨⟨kept .replay, kept .validation, kept .runner, kept .humanConfirmation⟩, ?_⟩
    refine acceptableOf_eq_ok_iff.mpr fun profile => ?_
    cases profile <;> exact hkept _

/-- The failures of the checks depend on the acceptable statements as sets. -/
theorem policyFailures_congr {a a' : Acceptable}
    (h : ∀ profile, SameMembers (a.part profile) (a'.part profile)) (policy : AcceptancePolicy)
    (proposal : JsValue) (scope : ObservationScope) :
    policyFailures policy proposal scope a = policyFailures policy proposal scope a' := by
  have houtcome : ∀ profile outcome,
      hasOutcome outcome (a.part profile) = hasOutcome outcome (a'.part profile) :=
    fun profile _ => (h profile).any_eq fun _ => False.elim
  have hconfirms : ∀ name, a.confirmations.any (confirms name) =
      a'.confirmations.any (confirms name) :=
    fun _ => (h .humanConfirmation).any_eq fun _ => False.elim
  have hclaims : claimFailures proposal policy a.confirmations =
      claimFailures proposal policy a'.confirmations := by
    refine List.flatMap_congr fun name _ => ?_
    simp only [claimFailuresOf, hconfirms]
  have hreplay : replayFailures a.replay = replayFailures a'.replay := by
    simp only [replayFailures, show ∀ outcome, hasOutcome outcome a.replay =
      hasOutcome outcome a'.replay from houtcome .replay]
  have hvalidation : ∀ texts isRequired, checkFailures texts isRequired a.validation =
      checkFailures texts isRequired a'.validation := by
    intro texts isRequired
    simp only [checkFailures, show ∀ outcome, hasOutcome outcome a.validation =
      hasOutcome outcome a'.validation from houtcome .validation]
  have hrunner : ∀ texts isRequired, checkFailures texts isRequired a.runner =
      checkFailures texts isRequired a'.runner := by
    intro texts isRequired
    simp only [checkFailures, show ∀ outcome, hasOutcome outcome a.runner =
      hasOutcome outcome a'.runner from houtcome .runner]
  simp only [policyFailures, hclaims, hreplay, hvalidation, hrunner]

/-- The evaluations have one verdict, for the same reasons. -/
structure SameVerdict (evaluation evaluation' : PolicyEvaluation) : Prop where
  /-- Both permit the requested outcome or neither does. -/
  permitted : evaluation.permitted = evaluation'.permitted
  /-- The failures are the same. -/
  failures : evaluation.failures = evaluation'.failures

/-- The facts of lists that differ by statements without influence. -/
theorem policyFacts_agree {context : PolicyContext} {input : EvaluateAcceptanceInput}
    {P : StatementObservation → Prop} {statements : List StatementObservation}
    (h : Adds P input.statements statements)
    (hP : ∀ o, P o → IsInert sha256 context.policy context.subjects o) :
    Agree (fun facts facts' => ({ facts with considered := [] } : EvaluationFacts) =
        { facts' with considered := [] })
      (policyFacts sha256 context input)
      (policyFacts sha256 context { input with statements }) := by
  refine (collect_agree h hP).bind fun c c' hc => ?_
  refine (acceptableOf_agree hc).bind fun a a' ha => ?_
  refine Agree.rfl.bind fun decides _ hdecides => ?_
  refine Agree.rfl.bind fun overrides _ hoverrides => .pure ?_
  rw [hdecides, hoverrides, policyFailures_congr ha]

/-- Statements without influence do not change the verdict. -/
theorem evaluateAcceptance_agree {input : EvaluateAcceptanceInput}
    {P : StatementObservation → Prop} {statements : List StatementObservation}
    (h : Adds P input.statements statements)
    (hP : ∀ context, policyContext sha256 input = .ok context → ∀ o, P o →
      IsInert sha256 context.policy context.subjects o) :
    Agree SameVerdict (evaluateAcceptance sha256 input)
      (evaluateAcceptance sha256 { input with statements }) := by
  -- the context does not depend on the statements
  refine Agree.bind_self (x := policyContext sha256 input) fun context hcontext => ?_
  refine (policyFacts_agree h (hP context hcontext)).bind fun facts facts' hfacts => .pure ?_
  obtain ⟨decides, overrides, isProposer, considered, failures⟩ := facts
  obtain ⟨decides', overrides', isProposer', considered', failures'⟩ := facts'
  simp only [EvaluationFacts.mk.injEq, true_and] at hfacts
  obtain ⟨rfl, rfl, rfl, rfl⟩ := hfacts
  exact ⟨rfl, rfl⟩

/-! ## Presentation -/

/-- The descriptors of an evaluation are those of the collected statements. -/
theorem considered_of_evaluateAcceptance {input : EvaluateAcceptanceInput}
    {evaluation : PolicyEvaluation} (h : evaluateAcceptance sha256 input = .ok evaluation) :
    ∃ context collected, policyContext sha256 input = .ok context ∧
      collect sha256 context.policy context.subjects input.statements = .ok collected ∧
      evaluation.considered = sortDescriptors collected.considered := by
  obtain ⟨context, hcontext, hrest⟩ := bind_eq_ok_iff.mp h
  obtain ⟨facts, hfacts, hlast⟩ := bind_eq_ok_iff.mp hrest
  obtain rfl := Except.ok.inj hlast
  obtain ⟨collected, hcollected, hmore⟩ := bind_eq_ok_iff.mp hfacts
  obtain ⟨_, -, hdecides⟩ := bind_eq_ok_iff.mp hmore
  obtain ⟨_, -, hoverrides⟩ := bind_eq_ok_iff.mp hdecides
  obtain ⟨_, -, heq⟩ := bind_eq_ok_iff.mp hoverrides
  obtain rfl := Except.ok.inj heq
  exact ⟨context, collected, hcontext, hcollected, rfl⟩

/-- The evaluation does not depend on the order of the statements nor on repetitions: lists with
the same members give the same verdict, the same failures and the same considered descriptors. -/
theorem evaluateAcceptance_presentation (input : EvaluateAcceptanceInput)
    (statements : List StatementObservation) (h : ∀ o, o ∈ input.statements ↔ o ∈ statements) :
    Agree (fun evaluation evaluation' => SameVerdict evaluation evaluation' ∧
        evaluation.considered = evaluation'.considered)
      (evaluateAcceptance sha256 input)
      (evaluateAcceptance sha256 { input with statements }) := by
  have hsame : SameMembers input.statements statements := sameMembers_iff.mpr h
  refine (evaluateAcceptance_agree hsame fun _ _ _ => False.elim).and ?_
  intro evaluation evaluation' he he'
  obtain ⟨context, c, hcontext, hc, heq⟩ := considered_of_evaluateAcceptance he
  obtain ⟨context', c', hcontext', hc', heq'⟩ := considered_of_evaluateAcceptance he'
  obtain rfl := Except.ok.inj (hcontext.symm.trans hcontext')
  have hdescriptor : ∀ {l c}, collect sha256 context.policy context.subjects l = .ok c →
      ∀ d ∈ c.considered, d = statementDescriptor d.digest := by
    intro l c hc d hd
    obtain ⟨o, -, one, hone, hd⟩ := (mem_collect _ rfl (fun _ _ => rfl) hc d).mp hd
    exact considered_of_collectOne hone d hd
  rw [heq, heq']
  refine sortDescriptors_congr (hdescriptor hc) (hdescriptor hc') (sameMembers_iff.mpr fun d => ?_)
  rw [mem_collect _ rfl (fun _ _ => rfl) hc, mem_collect _ rfl (fun _ _ => rfl) hc']
  simp only [h]

/-- A descriptor with one constant digest. -/
def sampleDescriptor (kind : ObjectKind) : ObjectDescriptor :=
  ⟨kind, expectedSchema kind, js "sha256:" ++ emptyStateHash⟩

/-- A Statement about one object by an agent. -/
def sampleStatement (subject : ObjectKind) (actor : String) (predicateType : JsString)
    (predicate : JsValue) : JsValue :=
  .obj [(js "schema", .str statementSchema), (js "subjects", .arr [(sampleDescriptor subject).value]),
    (js "actor", (ActorRef.mk .agent (js actor)).value), (js "predicateType", .str predicateType),
    (js "predicate", predicate)]

/-- An authored claim without evidence. -/
def sampleClaim : JsValue :=
  .obj [(js "mode", .str (js "authored")), (js "value", .str (js "why")), (js "evidence", .arr [])]

/-- The selector of everything. -/
def anySelector : JsValue := .obj [(js "mode", .str (js "any"))]

/-- A policy that trusts everyone's replays but those of one agent only. -/
def samplePolicy : JsValue :=
  let rule := .obj [(js "actors", anySelector)]
  let requirement := .obj [(js "allowedModes", .arr [.str (js "authored")]),
    (js "minimumEvidence", .num .zero), (js "humanConfirmation", .str (js "not_required"))]
  let verifier := .obj [(js "mode", .str (js "one_of")),
    (js "values", .arr [(ActorRef.mk .agent (js "agent:verifier")).value])]
  let trust := fun issuers => [(js "issuers", issuers), (js "tools", anySelector),
    (js "environments", anySelector)]
  .obj [(js "schema", .str (js acceptancePolicySchemaName)), (js "version", .num (countNumber 1)),
    (js "authorization", .obj [(js "decide", rule), (js "override", rule),
      (js "allowSelfApproval", .bool false)]),
    (js "claims", .obj [(js "intent", requirement), (js "rationale", requirement)]),
    (js "checks", .obj [(js "replay", .obj (trust verifier)),
      (js "validation", .obj ((js "requirement", .str (js "optional")) :: trust anySelector ++
        [(js "profiles", anySelector), (js "schemas", anySelector), (js "contexts", anySelector)])),
      (js "humanConfirmation", .obj [(js "issuers", anySelector)])]),
    (js "override", .obj [(js "allowClaimFailures", .bool false),
      (js "allowFailedValidation", .bool true), (js "allowMissingHumanConfirmation", .bool false),
      (js "allowMissingValidation", .bool true)])]

/-- The predicate of a replay that reports an Effect false. -/
def falseReplay : JsValue :=
  .obj [(js "tool", .obj [(js "name", .str (js "t3x")), (js "version", .str (js "1"))]),
    (js "run", .obj [(js "id", .str (js "run:1")),
      (js "recordedAt", .str (js "2026-07-28T00:00:00.000Z"))]),
    (js "environment", .obj [(js "mode", .str (js "unspecified"))]),
    (js "outcome", .str (js "false")), (js "reason", .str (js "differs"))]

/-- A replay by an agent that reports the Effect false. -/
def falseReplayBy (actor : String) : StatementObservation :=
  ⟨sampleStatement .effect actor replayVerificationPredicateType falseReplay,
    ⟨.agent, js actor⟩⟩

/-- An input about an Effect that changes nothing, with some statements. -/
def sampleInput (statements : List StatementObservation) : EvaluateAcceptanceInput where
  actorContext := ⟨.human, js "human:maintainer"⟩
  effect := .obj [(js "schema", .str effectSchema), (js "base", (sampleDescriptor .state).value),
    (js "driver", .obj [(js "protocol", .str (js "yops")), (js "protocolVersion", .str (js "1")),
      (js "specDigest", .str (js "sha256:" ++ emptyStateHash))]),
    (js "operations", .arr []), (js "inputs", .arr []),
    (js "result", (sampleDescriptor .state).value)]
  observationScope := ⟨js "complete", [js "project-store"]⟩
  outcome := .accepted
  policy := samplePolicy
  policyResource := .obj [(js "uri", .str (js "t3x://project/policies/default")),
    (js "mediaType", .str acceptancePolicyMediaType),
    (js "digest", .str (js "sha256:" ++ emptyStateHash))]
  proposal := sampleStatement .effect "agent:planner" proposalPredicateType
    (.obj [(js "intent", sampleClaim), (js "rationale", sampleClaim)])
  rationale := .unspecified
  statements := statements

/-- The statements of the input. -/
theorem statements_sampleInput (statements : List StatementObservation) :
    (sampleInput statements).statements = statements := rfl

/-- Two replays in the other order, one of them twice, give the same evaluation. -/
theorem evaluateAcceptance_presentation_of_replays :
    Agree (fun evaluation evaluation' => SameVerdict evaluation evaluation' ∧
        evaluation.considered = evaluation'.considered)
      (evaluateAcceptance (fun _ => emptyStateHash)
        (sampleInput [falseReplayBy "agent:verifier", falseReplayBy "agent:stranger"]))
      (evaluateAcceptance (fun _ => emptyStateHash)
        { sampleInput [falseReplayBy "agent:verifier", falseReplayBy "agent:stranger"] with
          statements := [falseReplayBy "agent:stranger", falseReplayBy "agent:verifier",
            falseReplayBy "agent:stranger"] }) := by
  refine evaluateAcceptance_presentation _ _ fun o => ?_
  rw [statements_sampleInput]
  generalize falseReplayBy "agent:verifier" = replay
  generalize falseReplayBy "agent:stranger" = replay'
  simp only [List.mem_cons, List.not_mem_nil, or_false]
  tauto

/-! ## Untrusted statements -/

/-- The statement is a Statement of the protocol, and of its profile if it has one. -/
structure WellFormed (statement : JsValue) : Prop where
  /-- The value is a Statement. -/
  isStatement : parseStatement statement = .ok statement
  /-- A statement with the predicate type of a profile is one of the profile. -/
  ofProfile : ∀ profile : Profile, predicateTypeOf statement = profile.predicateType →
    profile.parse statement = .ok statement

/-- The policy does not trust the source of the statement: not for the statement's profile. -/
def Untrusted (policy : AcceptancePolicy) (observation : StatementObservation) : Prop :=
  ∀ profile : Profile, predicateTypeOf observation.statement = profile.predicateType →
    ¬ policy.Trusts observation profile

/-- A policy that its resource names has no lone surrogates. -/
theorem isUnicode_of_verify {policy : AcceptancePolicy} {resource resource' : JsValue}
    (h : verifyAcceptancePolicyResource sha256 policy resource = .ok resource') :
    policy.data.isUnicode = true := by
  obtain ⟨-, hmediaType⟩ := refuse_eq_ok_iff.mp h
  obtain ⟨-, hdigest⟩ := refuse_eq_ok_iff.mp hmediaType
  obtain ⟨digest, hdigest, -⟩ := bind_eq_ok_iff.mp hdigest
  obtain ⟨canonical, hcanonical, -⟩ := bind_eq_ok_iff.mp hdigest
  obtain ⟨parsed, hparsed, htext⟩ := bind_eq_ok_iff.mp hcanonical
  have hdata : parsed = policy := by
    rw [parseAcceptancePolicy, dif_pos policy.valid] at hparsed
    exact (Except.ok.inj hparsed).symm
  rw [hdata] at htext
  exact exists_canonicalJson_iff.mp ⟨canonical, htext⟩

/-- What a context holds: a policy and subjects without lone surrogates. -/
structure PolicyContext.IsUnicode (context : PolicyContext) : Prop where
  /-- The policy. -/
  policy : context.policy.data.isUnicode = true
  /-- The subjects. -/
  subjects : ∀ profile, (context.subjects.of profile).isUnicode = true

/-- A descriptor of an object has no lone surrogates. -/
theorem isUnicode_describe (hhash : ∀ input, IsHashText (sha256 input)) {object : JsValue}
    {d : ObjectDescriptor} (h : describeProtocolObject sha256 object = .ok d) :
    d.value.isUnicode = true := by
  obtain ⟨bytes, -, hkind, hdigest⟩ := describeProtocolObject_eq_ok_iff.mp h
  exact isUnicode_descriptor (schema_of_kindForSchema hkind) hdigest (hhash _)

/-- The context of an evaluation has no lone surrogates. -/
theorem isUnicode_policyContext (hhash : ∀ input, IsHashText (sha256 input))
    {input : EvaluateAcceptanceInput} {context : PolicyContext}
    (h : policyContext sha256 input = .ok context) :
    parseAcceptancePolicy input.policy = .ok context.policy ∧ context.IsUnicode := by
  obtain ⟨policy, hpolicy, h⟩ := bind_eq_ok_iff.mp h
  obtain ⟨resource, hresource, h⟩ := bind_eq_ok_iff.mp h
  obtain ⟨proposal, hproposal, h⟩ := bind_eq_ok_iff.mp h
  obtain ⟨effect, heffect, h⟩ := bind_eq_ok_iff.mp h
  obtain ⟨scope, -, h⟩ := bind_eq_ok_iff.mp h
  obtain ⟨effectDescriptor, heffectDescriptor, h⟩ := bind_eq_ok_iff.mp h
  obtain ⟨about, -, h⟩ := bind_eq_ok_iff.mp h
  obtain ⟨-, h⟩ := refuse_eq_ok_iff.mp h
  obtain ⟨proposalDescriptor, hproposalDescriptor, h⟩ := bind_eq_ok_iff.mp h
  obtain rfl := Except.ok.inj h
  obtain ⟨_, hdomain, -⟩ := bind_eq_ok_iff.mp heffect
  obtain rfl := parseEffect_returns _ effect heffect
  refine ⟨hpolicy, isUnicode_of_verify hresource, fun profile => ?_⟩
  have hresult := isUnicode_member (isUnicode_of_assertProtocolDomain hdomain) "result"
  cases profile with
  | replay => exact isUnicode_describe hhash heffectDescriptor
  | validation => exact hresult
  | runner => exact hresult
  | humanConfirmation => exact isUnicode_describe hhash hproposalDescriptor

/-- A statement without lone surrogates is tested for relevance. -/
theorem exists_isRelevant {context : PolicyContext} (hcontext : context.IsUnicode)
    {statement : JsValue} (h : statement.isUnicode = true) :
    ∃ b, isRelevant context.policy context.subjects statement = .ok b := by
  have htest : ∀ (profile : Profile) (c : Bool), ∃ b,
      andThen (hasSubject statement (context.subjects.of profile)) (.ok c) = .ok b :=
    fun profile c => exists_andThen (exists_hasSubject h (hcontext.subjects profile)) ⟨c, rfl⟩
  obtain ⟨replay, hreplay⟩ := htest .replay
    (startsWith (predicateTypeOf statement) (js "t3x.dev/replay-verification/"))
  obtain ⟨validation, hvalidation⟩ := htest .validation
    (startsWith (predicateTypeOf statement) (js "t3x.dev/yschema-validation/"))
  obtain ⟨runner, hrunner⟩ := exists_andThen (x := .ok context.policy.runner.isSome) ⟨_, rfl⟩
    (htest .runner (startsWith (predicateTypeOf statement) (js "t3x.dev/runner-validation/")))
  obtain ⟨confirmation, hconfirmation⟩ := htest .humanConfirmation
    (decide (predicateTypeOf statement = humanConfirmationPredicateType))
  exact ⟨_, bind_eq_ok_iff.mpr ⟨replay, hreplay, bind_eq_ok_iff.mpr ⟨validation, hvalidation,
    bind_eq_ok_iff.mpr ⟨runner, hrunner, bind_eq_ok_iff.mpr ⟨confirmation, hconfirmation, rfl⟩⟩⟩⟩⟩

/-- A well-formed statement is collected. -/
theorem exists_collectOne {context : PolicyContext} (hcontext : context.IsUnicode)
    {observation : StatementObservation} (h : WellFormed observation.statement) :
    ∃ one, collectOne sha256 context.policy context.subjects observation = .ok one := by
  obtain ⟨hobject, hkind, hunicode⟩ := object_of_parseStatement h.isStatement
  obtain ⟨relevant, hrelevant⟩ := exists_isRelevant hcontext hunicode
  obtain ⟨text, htext⟩ := exists_canonicalJson_iff.mpr hunicode
  have hbytes : canonicalProtocolObjectBytes observation.statement = .ok (encodeUtf8 text) :=
    canonicalProtocolObjectBytes_eq_ok_iff.mpr ⟨hobject,
      canonicalProtocolBytes_eq_ok_iff.mpr ⟨text, htext, rfl⟩⟩
  have hdescribe : describeProtocolObject sha256 observation.statement =
      .ok (statementDescriptor (js "sha256:" ++
        sha256 (digestInput .statement statementSchema (encodeUtf8 text)))) :=
    describeProtocolObject_eq_ok_iff.mpr ⟨_, hbytes, hkind, rfl⟩
  refine exists_bind h.isStatement (exists_bind hrelevant ?_)
  cases relevant with
  | false => exact ⟨_, rfl⟩
  | true =>
    refine exists_bind hdescribe ?_
    split_ifs with h1 h2 h3 h4
    · exact exists_bind (h.ofProfile .replay h1) ⟨_, rfl⟩
    · exact exists_bind (h.ofProfile .validation h2) ⟨_, rfl⟩
    · exact exists_bind (h.ofProfile .runner h3) ⟨_, rfl⟩
    · exact exists_bind (h.ofProfile .humanConfirmation h4) ⟨_, rfl⟩
    · exact ⟨_, rfl⟩

/-- A statement from a source that the policy does not trust is not matched. -/
theorem matches_eq_false {policy : AcceptancePolicy} (hpolicy : policy.data.isUnicode = true)
    {observation : StatementObservation} (h : observation.statement.isUnicode = true)
    {profile : Profile} (huntrusted : ¬ policy.Trusts observation profile) (result : JsValue) :
    policy.matches result profile observation = .ok false := by
  have hchecks := isUnicode_member hpolicy "checks"
  have hrule := fun name => isUnicode_trustRuleOf (isUnicode_member hchecks name)
  cases profile with
  | replay => exact statementTrustMatches_eq_false (hrule _) h huntrusted result
  | validation => exact validationTrustMatches_eq_false (hrule _) h huntrusted
  | runner =>
    simp only [AcceptancePolicy.matches]
    cases hsome : policy.runner with
    | none => rfl
    | some rule =>
      have hunicode : rule.IsUnicode := by
        unfold AcceptancePolicy.runner at hsome
        split_ifs at hsome
        obtain rfl := Option.some.inj hsome
        exact hrule _
      exact runnerTrustMatches_eq_false hunicode h fun htrusts => huntrusted ⟨rule, hsome, htrusts⟩
  | humanConfirmation =>
    exact confirmationTrustMatches_eq_false
      (isUnicode_selectorOf (isUnicode_member (isUnicode_member hchecks _) _)) h
      huntrusted

/-- A replay by a stranger is well formed. -/
theorem wellFormed_falseReplay : WellFormed (falseReplayBy "agent:stranger").statement := by
  have hunicode : (falseReplayBy "agent:stranger").statement.isUnicode = true := by decide
  have hdomain := assertProtocolDomain_of_isUnicode hunicode
  have hhash : IsHashText emptyStateHash := ⟨by decide, List.all_eq_true.mp (by decide)⟩
  have hsubject : parseObjectDescriptor (sampleDescriptor .effect).value
      (itemPath (js "$.subjects") 0) = .ok (sampleDescriptor .effect) :=
    parseObjectDescriptor_value rfl rfl hhash
  have hpredicate : assertProtocolDomain falseReplay = .ok () :=
    assertProtocolDomain_of_isUnicode (by decide)
  have hactor : actorRef (ActorRef.mk .agent (js "agent:stranger")).value (js "$.actor") = .ok () := by
    decide
  have hparse : parseStatement (falseReplayBy "agent:stranger").statement =
      .ok (falseReplayBy "agent:stranger").statement := by
    refine bind_eq_ok_iff.mpr ⟨(), hdomain, bind_eq_ok_iff.mpr ⟨_, rfl, ?_⟩⟩
    refine bind_eq_ok_iff.mpr ⟨(), if_pos rfl, bind_eq_ok_iff.mpr ⟨_, rfl, ?_⟩⟩
    refine refuse_eq_ok_iff.mpr ⟨by decide, ?_⟩
    refine bind_eq_ok_iff.mpr ⟨[sampleDescriptor .effect],
      bind_eq_ok_iff.mpr ⟨_, hsubject, rfl⟩, bind_eq_ok_iff.mpr ⟨(), rfl, ?_⟩⟩
    refine bind_eq_ok_iff.mpr ⟨(), hactor, bind_eq_ok_iff.mpr
      ⟨replayVerificationPredicateType, by decide, ?_⟩⟩
    rw [if_neg (by decide), if_neg (by decide)]
    exact bind_eq_ok_iff.mpr ⟨(), hpredicate, rfl⟩
  refine ⟨hparse, fun profile htype => ?_⟩
  obtain rfl : profile = .replay := Profile.predicateType_inj.mp htype.symm
  refine bind_eq_ok_iff.mpr ⟨_, hparse, refuse_eq_ok_iff.mpr ⟨not_not.mpr rfl, ?_⟩⟩
  exact bind_eq_ok_iff.mpr ⟨(), rfl, bind_eq_ok_iff.mpr ⟨(), rfl, refuse_eq_ok_iff.mpr
    ⟨by decide, rfl⟩⟩⟩

end T3x.Decision
