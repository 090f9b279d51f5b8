import T3x.Decision.Adverse
import T3x.Transition.Descriptors
import T3x.Transition.Integrity

/-!
# Recording a permitted decision

`createDecisionStatement` evaluates the request again and, where it is
permitted, parses the Decision Statement that records it. The descriptors that
the evaluation sorted by digest are the canonical set that the parser asks for.
What the evaluation passes on without a look, the actor and the resource of the
policy, has to be valid by itself.
-/

namespace T3x.Decision

open Js Transition

/-! ## The Statement of a decision -/

/-- The word for an outcome. -/
def RequestedDecisionOutcome.text : RequestedDecisionOutcome → JsString
  | .accepted => js "accepted"
  | .overridden => js "overridden"
  | .rejected => js "rejected"

/-- The word for the mode of a claim that is made. -/
def ClaimMode.text : ClaimMode → JsString
  | .stated => js "stated"
  | .inferred => js "inferred"
  | .authored => js "authored"

/-- A claim as the value that it is. -/
def StringClaim.value : StringClaim → JsValue
  | .unspecified => .obj [(js "mode", .str (js "unspecified"))]
  | .made mode value evidence => .obj [(js "mode", .str mode.text), (js "value", .str value),
      (js "evidence", .arr evidence)]

/-- The predicate of the Decision Statement. -/
def decisionPredicateValue (evaluation : PolicyEvaluation) (decidedAt : JsString) : JsValue :=
  .obj [(js "policy", .obj [(js "mode", .str (js "evaluated")),
      (js "resource", evaluation.policy)]),
    (js "considered", .arr (evaluation.considered.map ObjectDescriptor.value)),
    (js "outcome", .str evaluation.requestedOutcome.text),
    (js "rationale", evaluation.rationale.value), (js "decidedAt", .str decidedAt)]

/-- The Decision Statement that is parsed. -/
def decisionValue (evaluation : PolicyEvaluation) (decidedAt : JsString) : JsValue :=
  .obj [(js "schema", .str statementSchema), (js "subjects", .arr [evaluation.proposal.value]),
    (js "actor", evaluation.actor.value), (js "predicateType", .str decisionPredicateType),
    (js "predicate", decisionPredicateValue evaluation decidedAt)]

/-- `DecisionCreationResult`. -/
inductive DecisionCreationResult where
  /-- The decision is recorded. -/
  | created (decision : JsValue) (evaluation : PolicyEvaluation)
  /-- The outcome is not permitted. -/
  | refused (evaluation : PolicyEvaluation) (failures : List PolicyFailure)

/-- `createDecisionStatement(input)`. -/
def createDecisionStatement (sha256 : List UInt8 → JsString) (input : EvaluateAcceptanceInput)
    (decidedAt : JsString) : Except ProtocolError DecisionCreationResult := do
  let evaluation ← evaluateAcceptance sha256 input
  if !evaluation.permitted then
    return .refused evaluation evaluation.failures
  let decision ← parseDecisionStatement (decisionValue evaluation decidedAt)
  return .created decision evaluation

/-! ## The considered descriptors -/

variable {sha256 : List UInt8 → JsString}

/-- The descriptors by digest stand under their digests. -/
theorem digest_of_mem_foldl {descriptors : List ObjectDescriptor}
    (h : ∀ d ∈ descriptors, d = statementDescriptor d.digest) {e : JsString × ObjectDescriptor}
    (he : e ∈ descriptors.foldl (fun map d => Record.mapSet map d.digest d) []) :
    e.2 = statementDescriptor e.1 ∧ e.1 ∈ descriptors.map ObjectDescriptor.digest := by
  have hnodup : ((descriptors.foldl (fun map d => Record.mapSet map d.digest d)
      ([] : Record ObjectDescriptor)).map Prod.fst).Nodup :=
    nodup_foldl_mapSet descriptors List.nodup_nil
  have hget := Record.get_eq_some_of_mem hnodup he
  rw [get_foldl_mapSet h] at hget
  split_ifs at hget with hmem
  · exact ⟨(Option.some.inj hget).symm, hmem⟩
  · cases hget

/-- The descriptors that are sorted are those of the list. -/
theorem of_mem_sortDescriptors {descriptors : List ObjectDescriptor}
    (h : ∀ d ∈ descriptors, d = statementDescriptor d.digest) {d : ObjectDescriptor}
    (hd : d ∈ sortDescriptors descriptors) :
    d = statementDescriptor d.digest ∧ d.digest ∈ descriptors.map ObjectDescriptor.digest := by
  obtain ⟨e, he, rfl⟩ := List.mem_map.mp ((sortBy_perm _ _).mem_iff.mp hd)
  obtain ⟨heq, hmem⟩ := digest_of_mem_foldl h he
  rw [heq]
  exact ⟨rfl, hmem⟩

/-- The descriptors that are sorted ascend by digest. -/
theorem isChain_sortDescriptors {descriptors : List ObjectDescriptor}
    (h : ∀ d ∈ descriptors, d = statementDescriptor d.digest) :
    ((sortDescriptors descriptors).map ObjectDescriptor.digest).IsChain
      fun a b => compareCodeUnits a b < 0 := by
  have hnodup : ((descriptors.foldl (fun map d => Record.mapSet map d.digest d)
      ([] : Record ObjectDescriptor)).map Prod.fst).Nodup :=
    nodup_foldl_mapSet descriptors List.nodup_nil
  -- no digest is sorted twice
  have hdigests : ((sortDescriptors descriptors).map ObjectDescriptor.digest).Nodup := by
    refine ((sortBy_perm _ _).map _).nodup_iff.mpr ?_
    rw [List.map_map]
    refine (List.map_congr_left fun e he => ?_) ▸ hnodup
    rw [Function.comp_apply, (digest_of_mem_foldl h he).1]
    rfl
  have hsorted := sortBy_pairwise isStringOrder_compareCodeUnits ObjectDescriptor.digest
    ((descriptors.foldl (fun map d => Record.mapSet map d.digest d)
      ([] : Record ObjectDescriptor)).map Prod.snd)
  refine List.Pairwise.isChain (List.pairwise_map.mpr ?_)
  refine (hsorted.and (List.pairwise_map.mp hdigests)).imp fun {a b} ⟨hle, hne⟩ => ?_
  exact lt_of_le_of_ne hle fun hzero => hne (isStringOrder_compareCodeUnits.eq_zero _ _ |>.mp hzero)

/-- A descriptor of an object has a digest with a hash text. -/
theorem isDigest_describe (hhash : ∀ input, IsHashText (sha256 input)) {object : JsValue}
    {d : ObjectDescriptor} (h : describeProtocolObject sha256 object = .ok d) :
    IsDigest d.digest := by
  obtain ⟨bytes, -, -, hdigest⟩ := describeProtocolObject_eq_ok_iff.mp h
  exact ⟨_, hhash _, hdigest⟩

/-- The considered descriptors are those of statements, with digests that ascend. -/
structure AreConsidered (descriptors : List ObjectDescriptor) : Prop where
  /-- They are descriptors of statements. -/
  statements : ∀ d ∈ descriptors, d = statementDescriptor d.digest
  /-- Their digests have hash texts. -/
  digests : ∀ d ∈ descriptors, IsDigest d.digest
  /-- Their digests ascend. -/
  ascend : (descriptors.map ObjectDescriptor.digest).IsChain fun a b => compareCodeUnits a b < 0

/-- The considered descriptors of an evaluation. -/
theorem areConsidered_of_evaluateAcceptance (hhash : ∀ input, IsHashText (sha256 input))
    {input : EvaluateAcceptanceInput} {evaluation : PolicyEvaluation}
    (h : evaluateAcceptance sha256 input = .ok evaluation) : AreConsidered evaluation.considered := by
  obtain ⟨context, collected, -, hcollected, hconsidered⟩ := considered_of_evaluateAcceptance h
  -- every collected descriptor is that of one statement
  have hone : ∀ d ∈ collected.considered, ∃ observation one,
      collectOne sha256 context.policy context.subjects observation = .ok one ∧
        d ∈ one.considered := by
    intro d hd
    obtain ⟨observation, -, one, hone, hd⟩ :=
      (mem_collect _ rfl (fun _ _ => rfl) hcollected d).mp hd
    exact ⟨observation, one, hone, hd⟩
  have hstatements : ∀ d ∈ collected.considered, d = statementDescriptor d.digest := by
    intro d hd
    obtain ⟨observation, one, hone, hd⟩ := hone d hd
    exact considered_of_collectOne hone d hd
  rw [hconsidered]
  refine ⟨fun d hd => (of_mem_sortDescriptors hstatements hd).1, fun d hd => ?_,
    isChain_sortDescriptors hstatements⟩
  obtain ⟨d', hd', hdigest⟩ := List.mem_map.mp (of_mem_sortDescriptors hstatements hd).2
  obtain ⟨observation, one, hone, hd'⟩ := hone d' hd'
  obtain ⟨-, hdescribed⟩ := described_of_collectOne hone hd'
  rw [← hdigest]
  exact isDigest_describe hhash hdescribed

/-- The considered descriptors are a canonical set. -/
theorem AreConsidered.canonicalSet {descriptors : List ObjectDescriptor}
    (h : AreConsidered descriptors) (path : JsString) :
    canonicalSet path (descriptors.map ObjectDescriptor.value) = .ok () := by
  have hvalues : descriptors.map ObjectDescriptor.value =
      (descriptors.map ObjectDescriptor.digest).map
        fun digest => (descriptorWith .statement digest).value := by
    rw [List.map_map]
    refine List.map_congr_left fun d hd => ?_
    rw [Function.comp_apply]
    exact congrArg ObjectDescriptor.value (h.statements d hd)
  rw [hvalues]
  refine canonicalSet_of_ascending .statement (fun digest hdigest => ?_) h.ascend
  obtain ⟨d, hd, rfl⟩ := List.mem_map.mp hdigest
  exact h.digests d hd

/-- The considered descriptors are checked one by one. -/
theorem AreConsidered.eachItem {descriptors : List ObjectDescriptor}
    (h : AreConsidered descriptors) (path : JsString) (index : ℕ) :
    eachItem (descriptorOfKind .statement) path index (descriptors.map ObjectDescriptor.value) =
      .ok descriptors := by
  obtain ⟨hstatements, hdigests, -⟩ := h
  induction descriptors generalizing index with
  | nil => rfl
  | cons d descriptors ih =>
    obtain ⟨hash, hhash, hdigest⟩ := hdigests d List.mem_cons_self
    have hd := hstatements d List.mem_cons_self
    have hparse : parseObjectDescriptor d.value (itemPath path index) = .ok d :=
      parseObjectDescriptor_value (by rw [hd]; rfl) hdigest hhash
    have hrest := ih (index + 1) (fun e he => hstatements e (List.mem_cons_of_mem _ he))
      fun e he => hdigests e (List.mem_cons_of_mem _ he)
    refine bind_eq_ok_iff.mpr ⟨d, ?_, bind_eq_ok_iff.mpr ⟨descriptors, hrest, rfl⟩⟩
    exact bind_eq_ok_iff.mpr ⟨d, hparse, refuse_eq_ok_iff.mpr ⟨not_not.mpr (by rw [hd]; rfl), rfl⟩⟩

/-! ## What the parser asks for -/

/-- The actor is one that the protocol accepts. -/
def IsValidActor (actor : JsValue) : Prop :=
  assertProtocolDomain actor = .ok () ∧ actorRef actor (js "$.actor") = .ok ()

/-- The resource of the policy is one that the protocol accepts. -/
def IsValidResource (resource : JsValue) : Prop :=
  assertProtocolDomain resource = .ok () ∧
    resourceDescriptor resource (fieldPath (fieldPath (js "$.predicate") "policy") "resource") = .ok ()

/-- The rationale is a claim that the protocol accepts. -/
def IsValidClaim (claim : JsValue) : Prop :=
  assertProtocolDomain claim = .ok () ∧
    ∃ mode, stringClaim claim (fieldPath (js "$.predicate") "rationale") = .ok mode

/-- The time of the decision is written as the protocol asks. -/
def IsValidTimestamp (decidedAt : JsString) : Prop := timestampPattern decidedAt = true

/-- An object has no lone surrogates when its members have none. -/
theorem isUnicode_of_forall_mem {members : Record JsValue}
    (h : ∀ e ∈ members, isWellFormed e.1 = true ∧ e.2.isUnicode = true) :
    (JsValue.obj members).isUnicode = true :=
  JsValue.isUnicode_obj.mpr fun _ _ hget => h _ (Record.mem_of_get hget)

/-- A digit is an ASCII character. -/
theorem isAscii_of_isDigit {u : UInt16} (h : isDigit u = true) : u.toNat < 0x80 := by
  have h57 : (57 : UInt16).toNat = 57 := rfl
  simp only [isDigit, Bool.and_eq_true, decide_eq_true_eq, UInt16.le_iff_toNat_le, h57] at h
  omega

/-- Two digits are ASCII characters. -/
theorem isAscii_of_twoDigits {least greatest : ℕ} {u v : UInt16}
    (h : twoDigits least greatest u v = true) : u.toNat < 0x80 ∧ v.toNat < 0x80 := by
  simp only [twoDigits, Bool.and_eq_true] at h
  exact ⟨isAscii_of_isDigit h.1.1, isAscii_of_isDigit h.1.2⟩

/-- A timestamp is written in ASCII characters. -/
theorem isAscii_of_timestampPattern {s : JsString} (h : timestampPattern s = true) : IsAscii s := by
  unfold timestampPattern at h
  split at h
  · simp only [Bool.and_eq_true, beq_iff_eq] at h
    obtain ⟨⟨⟨⟨⟨⟨hdigits, hmarks⟩, hmonth⟩, hday⟩, hhour⟩, hminute⟩, hsecond⟩ := h
    have hmarked : IsAscii (js "--T::.Z") := by decide
    rw [← hmarks] at hmarked
    have hdigit : IsAscii _ := fun u hu => isAscii_of_isDigit (List.all_eq_true.mp hdigits u hu)
    have hmonth := isAscii_of_twoDigits hmonth
    have hday := isAscii_of_twoDigits hday
    have hhour := isAscii_of_twoDigits hhour
    have hminute := isAscii_of_twoDigits hminute
    have hsecond := isAscii_of_twoDigits hsecond
    simp only [IsAscii, List.forall_mem_cons] at hdigit hmarked ⊢
    simp only [hdigit, hmarked, hmonth, hday, hhour, hminute, hsecond, true_and]
    exact fun u hu => absurd hu List.not_mem_nil
  · cases h

/-- A timestamp has no lone surrogates. -/
theorem isUnicode_timestamp {decidedAt : JsString} (h : IsValidTimestamp decidedAt) :
    (JsValue.str decidedAt).isUnicode = true :=
  isWellFormed_of_plain fun u hu => not_surrogate_of_lt (isAscii_of_timestampPattern h u hu)

/-- The Decision Statement has no lone surrogates when its open parts have none. -/
theorem isUnicode_decisionValue {evaluation : PolicyEvaluation} {decidedAt : JsString}
    (hproposal : evaluation.proposal.value.isUnicode = true)
    (hactor : evaluation.actor.value.isUnicode = true)
    (hpolicy : evaluation.policy.isUnicode = true)
    (hconsidered : ∀ d ∈ evaluation.considered, d.value.isUnicode = true)
    (hrationale : evaluation.rationale.value.isUnicode = true)
    (hdecidedAt : IsValidTimestamp decidedAt) :
    (decisionValue evaluation decidedAt).isUnicode = true := by
  have hpredicate : (decisionPredicateValue evaluation decidedAt).isUnicode = true := by
    refine isUnicode_of_forall_mem ?_
    simp only [List.forall_mem_cons, List.not_mem_nil, false_imp_iff, implies_true, and_true]
    refine ⟨⟨by decide, isUnicode_of_forall_mem ?_⟩, ⟨by decide, ?_⟩, ⟨by decide, ?_⟩,
      ⟨by decide, hrationale⟩, by decide, isUnicode_timestamp hdecidedAt⟩
    · simp only [List.forall_mem_cons, List.not_mem_nil, false_imp_iff, implies_true, and_true]
      exact ⟨⟨by decide, by decide⟩, by decide, hpolicy⟩
    · rw [JsValue.isUnicode_arr]
      intro v hv
      obtain ⟨d, hd, rfl⟩ := List.mem_map.mp hv
      exact hconsidered d hd
    · cases evaluation.requestedOutcome <;> decide
  refine isUnicode_of_forall_mem ?_
  simp only [List.forall_mem_cons, List.not_mem_nil, false_imp_iff, implies_true, and_true]
  refine ⟨⟨by decide, by decide⟩, ⟨by decide, ?_⟩, ⟨by decide, hactor⟩, ⟨by decide, by decide⟩,
    by decide, hpredicate⟩
  rw [JsValue.isUnicode_arr]
  exact fun v hv => List.mem_singleton.mp hv ▸ hproposal

/-- The mode of an authored claim. -/
theorem mode_of_authored {value : JsString} {evidence : List JsValue} {path mode : JsString}
    (h : stringClaim (StringClaim.made .authored value evidence).value path = .ok mode) :
    mode = js "authored" := by
  obtain ⟨record, hrecord, h⟩ := bind_eq_ok_iff.mp h
  obtain ⟨word, hword, h⟩ := bind_eq_ok_iff.mp h
  obtain rfl := JsValue.obj.inj (closedRecord_eq_ok_iff.mp hrecord).1
  obtain rfl : word = js "authored" := JsValue.str.inj (Independent.stringValue_eq_ok hword).1.symm
  rw [if_neg (by decide)] at h
  obtain ⟨-, h⟩ := refuse_eq_ok_iff.mp h
  obtain ⟨_, -, h⟩ := bind_eq_ok_iff.mp h
  obtain ⟨_, -, h⟩ := bind_eq_ok_iff.mp h
  obtain ⟨_, -, h⟩ := bind_eq_ok_iff.mp h
  exact (Except.ok.inj h).symm

/-- What is known of an evaluation that is to be recorded: its proposal and its descriptors are
the evaluation's own, and an override is authored. -/
structure IsRecordable (evaluation : PolicyEvaluation) : Prop where
  /-- The proposal is a statement. -/
  isStatement : evaluation.proposal = statementDescriptor evaluation.proposal.digest
  /-- The digest of the proposal has a hash text. -/
  isDigest : IsDigest evaluation.proposal.digest
  /-- The considered descriptors are in order. -/
  considered : AreConsidered evaluation.considered
  /-- An override has an authored rationale. -/
  authored : evaluation.requestedOutcome = .overridden → ∃ value evidence,
    evaluation.rationale = .made .authored value evidence

/-- A descriptor of a statement has no lone surrogates. -/
theorem isUnicode_statementDescriptor {d : ObjectDescriptor}
    (h : d = statementDescriptor d.digest) (hdigest : IsDigest d.digest) :
    d.value.isUnicode = true := by
  obtain ⟨hash, hhash, hdigest⟩ := hdigest
  exact isUnicode_descriptor (by rw [h]; rfl) hdigest hhash

/-- The policy of an evaluated Decision is checked by its resource. -/
theorem decisionPolicy_evaluated_iff {resource : JsValue} {path : JsString} :
    decisionPolicy (.obj [(js "mode", .str (js "evaluated")), (js "resource", resource)]) path =
      .ok () ↔ resourceDescriptor resource (fieldPath path "resource") = .ok () := by
  have hmode : field [(js "mode", .str (js "evaluated")), (js "resource", resource)] "mode" =
      .str (js "evaluated") := rfl
  have hother : JsValue.str (js "evaluated") ≠ .str (js "not_evaluated") := by decide
  constructor
  · intro h
    obtain ⟨record, hrecord, h⟩ := bind_eq_ok_iff.mp h
    obtain rfl := JsValue.obj.inj (closedRecord_eq_ok_iff.mp hrecord).1
    rw [hmode, if_neg hother, if_pos rfl] at h
    obtain ⟨evaluated, hevaluated, h⟩ := bind_eq_ok_iff.mp h
    obtain rfl := JsValue.obj.inj (closedRecord_eq_ok_iff.mp hevaluated).1
    exact h
  · intro h
    refine bind_eq_ok_iff.mpr ⟨_, rfl, ?_⟩
    rw [hmode, if_neg hother, if_pos rfl]
    exact bind_eq_ok_iff.mpr ⟨_, rfl, h⟩

/-- The parser accepts the Decision Statement when its actor and its resource are valid. -/
theorem parseDecisionStatement_decisionValue {evaluation : PolicyEvaluation}
    (h : IsRecordable evaluation) {decidedAt : JsString} (hdecidedAt : IsValidTimestamp decidedAt)
    (hrationale : IsValidClaim evaluation.rationale.value)
    (hactor : IsValidActor evaluation.actor.value) (hpolicy : IsValidResource evaluation.policy) :
    parseDecisionStatement (decisionValue evaluation decidedAt) =
      .ok (decisionValue evaluation decidedAt) := by
  have hunicode : (decisionValue evaluation decidedAt).isUnicode = true := isUnicode_decisionValue
    (isUnicode_statementDescriptor h.isStatement h.isDigest)
    (isUnicode_of_assertProtocolDomain hactor.1) (isUnicode_of_assertProtocolDomain hpolicy.1)
    (fun d hd => isUnicode_statementDescriptor (h.considered.statements d hd)
      (h.considered.digests d hd))
    (isUnicode_of_assertProtocolDomain hrationale.1) hdecidedAt
  obtain ⟨hash, hhash, hdigest⟩ := h.isDigest
  have hsubject : parseObjectDescriptor evaluation.proposal.value (itemPath (js "$.subjects") 0) =
      .ok evaluation.proposal := parseObjectDescriptor_value (by rw [h.isStatement]; rfl) hdigest hhash
  obtain ⟨mode, hmode⟩ := hrationale.2
  have houtcome : ∀ outcome : RequestedDecisionOutcome, JsValue.str outcome.text ∈
      [JsValue.str (js "accepted"), .str (js "overridden"), .str (js "rejected")] := by
    intro outcome
    cases outcome <;> decide
  have hoverridden : JsValue.str evaluation.requestedOutcome.text = .str (js "overridden") →
      evaluation.requestedOutcome = .overridden := by
    cases evaluation.requestedOutcome <;> decide
  have hpredicate : decisionPredicate (decisionPredicateValue evaluation decidedAt)
      (js "$.predicate") = .ok () := by
    refine bind_eq_ok_iff.mpr ⟨_, rfl, bind_eq_ok_iff.mpr
      ⟨(), decisionPolicy_evaluated_iff.mpr hpolicy.2, ?_⟩⟩
    refine bind_eq_ok_iff.mpr ⟨_, rfl, bind_eq_ok_iff.mpr ⟨_, h.considered.eachItem _ _, ?_⟩⟩
    refine bind_eq_ok_iff.mpr ⟨(), h.considered.canonicalSet _, refuse_eq_ok_iff.mpr ⟨?_, ?_⟩⟩
    · exact not_not.mpr (houtcome evaluation.requestedOutcome)
    refine bind_eq_ok_iff.mpr ⟨mode, hmode, refuse_eq_ok_iff.mpr ⟨?_, ?_⟩⟩
    · rintro ⟨hoverride, hother⟩
      obtain ⟨value, evidence, hclaim⟩ := h.authored (hoverridden hoverride)
      rw [hclaim] at hmode
      exact hother (mode_of_authored hmode)
    exact bind_eq_ok_iff.mpr ⟨decidedAt, stringValue_str hdecidedAt, rfl⟩
  have htype : identifier (.str decisionPredicateType) (js "$.predicateType") =
      .ok decisionPredicateType := by decide
  have hparse : parseStatement (decisionValue evaluation decidedAt) =
      .ok (decisionValue evaluation decidedAt) := by
    refine bind_eq_ok_iff.mpr ⟨(), assertProtocolDomain_of_isUnicode hunicode, ?_⟩
    refine bind_eq_ok_iff.mpr ⟨_, rfl, bind_eq_ok_iff.mpr ⟨(), if_pos rfl, ?_⟩⟩
    refine bind_eq_ok_iff.mpr ⟨_, rfl, refuse_eq_ok_iff.mpr ⟨Bool.false_ne_true, ?_⟩⟩
    refine bind_eq_ok_iff.mpr ⟨[evaluation.proposal],
      bind_eq_ok_iff.mpr ⟨_, hsubject, rfl⟩, bind_eq_ok_iff.mpr ⟨(), rfl, ?_⟩⟩
    refine bind_eq_ok_iff.mpr ⟨(), hactor.2, bind_eq_ok_iff.mpr
      ⟨decisionPredicateType, htype, ?_⟩⟩
    rw [if_neg (by decide), if_pos rfl]
    refine refuse_eq_ok_iff.mpr ⟨not_not.mpr ?_, bind_eq_ok_iff.mpr ⟨(), hpredicate, rfl⟩⟩
    rw [h.isStatement]
    rfl
  exact bind_eq_ok_iff.mpr ⟨_, hparse, refuse_eq_ok_iff.mpr ⟨not_not.mpr rfl, rfl⟩⟩

/-- A Decision Statement that the parser accepts has a valid actor and a valid resource. -/
theorem isValid_of_parseDecisionStatement {evaluation : PolicyEvaluation} {decidedAt : JsString}
    {decision : JsValue}
    (h : parseDecisionStatement (decisionValue evaluation decidedAt) = .ok decision) :
    IsValidActor evaluation.actor.value ∧ IsValidResource evaluation.policy := by
  obtain ⟨statement, hstatement, -⟩ := bind_eq_ok_iff.mp h
  obtain ⟨_, hdomain, h⟩ := bind_eq_ok_iff.mp hstatement
  obtain ⟨record, hrecord, h⟩ := bind_eq_ok_iff.mp h
  obtain rfl := JsValue.obj.inj (closedRecord_eq_ok_iff.mp hrecord).1
  obtain ⟨_, -, h⟩ := bind_eq_ok_iff.mp h
  obtain ⟨_, -, h⟩ := bind_eq_ok_iff.mp h
  obtain ⟨-, h⟩ := refuse_eq_ok_iff.mp h
  obtain ⟨_, -, h⟩ := bind_eq_ok_iff.mp h
  obtain ⟨_, -, h⟩ := bind_eq_ok_iff.mp h
  obtain ⟨_, hactor, h⟩ := bind_eq_ok_iff.mp h
  obtain ⟨predicateType, htype, h⟩ := bind_eq_ok_iff.mp h
  obtain rfl : predicateType = decisionPredicateType :=
    JsValue.str.inj (Independent.stringValue_eq_ok htype).1.symm
  rw [if_neg (by decide), if_pos rfl] at h
  obtain ⟨-, h⟩ := refuse_eq_ok_iff.mp h
  obtain ⟨_, hpredicate, -⟩ := bind_eq_ok_iff.mp h
  obtain ⟨members, hmembers, h⟩ := bind_eq_ok_iff.mp hpredicate
  obtain rfl := JsValue.obj.inj (closedRecord_eq_ok_iff.mp hmembers).1
  obtain ⟨_, hpolicy, -⟩ := bind_eq_ok_iff.mp h
  have hunicode := isUnicode_of_assertProtocolDomain hdomain
  have hresource : evaluation.policy.isUnicode = true :=
    Independent.isUnicode_part (Independent.isUnicode_part
      (Independent.isUnicode_part hunicode "predicate") "policy") "resource"
  exact ⟨⟨assertProtocolDomain_of_isUnicode (Independent.isUnicode_part hunicode "actor"), hactor⟩,
    assertProtocolDomain_of_isUnicode hresource, decisionPolicy_evaluated_iff.mp hpolicy⟩

/-! ## Permitted evaluations -/

/-- What an evaluation takes over from its input. -/
theorem input_of_evaluateAcceptance {input : EvaluateAcceptanceInput}
    {evaluation : PolicyEvaluation} (h : evaluateAcceptance sha256 input = .ok evaluation) :
    evaluation.actor = input.actorContext.actor ∧ evaluation.policy = input.policyResource ∧
      evaluation.rationale = input.rationale ∧ evaluation.requestedOutcome = input.outcome ∧
        ∃ proposal, parseStatement proposal = .ok proposal ∧
          describeProtocolObject sha256 proposal = .ok evaluation.proposal := by
  obtain ⟨context, hcontext, h⟩ := bind_eq_ok_iff.mp h
  obtain ⟨facts, -, h⟩ := bind_eq_ok_iff.mp h
  obtain rfl := Except.ok.inj h
  obtain ⟨policy, -, h⟩ := bind_eq_ok_iff.mp hcontext
  obtain ⟨resource, hresource, h⟩ := bind_eq_ok_iff.mp h
  obtain ⟨proposal, hproposal, h⟩ := bind_eq_ok_iff.mp h
  obtain ⟨effect, -, h⟩ := bind_eq_ok_iff.mp h
  obtain ⟨scope, -, h⟩ := bind_eq_ok_iff.mp h
  obtain ⟨effectDescriptor, -, h⟩ := bind_eq_ok_iff.mp h
  obtain ⟨about, -, h⟩ := bind_eq_ok_iff.mp h
  obtain ⟨-, h⟩ := refuse_eq_ok_iff.mp h
  obtain ⟨descriptor, hdescriptor, h⟩ := bind_eq_ok_iff.mp h
  obtain rfl := Except.ok.inj h
  obtain ⟨-, hresource⟩ := refuse_eq_ok_iff.mp hresource
  obtain ⟨-, hresource⟩ := refuse_eq_ok_iff.mp hresource
  obtain ⟨digest, -, hresource⟩ := bind_eq_ok_iff.mp hresource
  obtain ⟨-, hresource⟩ := refuse_eq_ok_iff.mp hresource
  obtain ⟨statement, hstatement, hproposal⟩ := bind_eq_ok_iff.mp hproposal
  obtain ⟨-, hproposal⟩ := refuse_eq_ok_iff.mp hproposal
  obtain rfl := Except.ok.inj hproposal
  refine ⟨rfl, (Except.ok.inj hresource).symm, rfl, rfl, statement, ?_, hdescriptor⟩
  exact parseStatement_returns _ _ hstatement ▸ hstatement

/-- An evaluation that is permitted can be recorded but for its actor and its resource. -/
theorem isRecordable_of_permitted (hhash : ∀ input, IsHashText (sha256 input))
    {input : EvaluateAcceptanceInput} {evaluation : PolicyEvaluation}
    (h : evaluateAcceptance sha256 input = .ok evaluation) (hpermitted : evaluation.permitted = true) :
    IsRecordable evaluation := by
  obtain ⟨-, -, hrationale, houtcome, proposal, hproposal, hdescribed⟩ :=
    input_of_evaluateAcceptance h
  refine ⟨eq_statementDescriptor hproposal hdescribed, isDigest_describe hhash hdescribed,
    areConsidered_of_evaluateAcceptance hhash h, fun hoverridden => ?_⟩
  obtain ⟨evaluated⟩ := nonempty_evaluated h
  obtain ⟨-, ⟨effect, -, heffect⟩, -⟩ := policyContext_eq_ok evaluated.context_eq
  obtain ⟨value, evidence, hvalue, -⟩ :=
    (evaluated.overrideJustified (houtcome.symm.trans hoverridden) hpermitted heffect).rationale
  exact ⟨value, evidence, hrationale.trans hvalue⟩

/-- What is considered by an evaluation is a canonical set. A permitted evaluation with a valid
rationale is recorded at a valid time, as a Statement that the parser accepts, exactly when the
actor and the resource of the policy are valid. -/
theorem permitted_is_recorded (hhash : ∀ input, IsHashText (sha256 input))
    (input : EvaluateAcceptanceInput) (evaluation : PolicyEvaluation)
    (h : evaluateAcceptance sha256 input = .ok evaluation) (hpermitted : evaluation.permitted = true)
    (decidedAt : JsString) (hdecidedAt : IsValidTimestamp decidedAt)
    (hrationale : IsValidClaim input.rationale.value) :
    canonicalSet (js "$.predicate.considered")
        (evaluation.considered.map ObjectDescriptor.value) = .ok () ∧
      ((∃ decision, createDecisionStatement sha256 input decidedAt =
          .ok (.created decision evaluation) ∧ parseStatement decision = .ok decision) ↔
        IsValidActor input.actorContext.actor.value ∧ IsValidResource input.policyResource) := by
  have hrecordable := isRecordable_of_permitted hhash h hpermitted
  obtain ⟨hactor, hpolicy, hclaim, -⟩ := input_of_evaluateAcceptance h
  refine ⟨hrecordable.considered.canonicalSet _, ?_⟩
  rw [← hactor, ← hpolicy]
  constructor
  · rintro ⟨decision, hcreated, -⟩
    obtain ⟨evaluation', hevaluation', hcreated⟩ := bind_eq_ok_iff.mp hcreated
    obtain rfl := Except.ok.inj (h.symm.trans hevaluation')
    rw [hpermitted, if_neg (by decide)] at hcreated
    obtain ⟨decision', hdecision', -⟩ := bind_eq_ok_iff.mp hcreated
    exact isValid_of_parseDecisionStatement hdecision'
  · rintro ⟨hvalidActor, hvalidResource⟩
    have hdecision := parseDecisionStatement_decisionValue hrecordable hdecidedAt
      (by rw [hclaim]; exact hrationale) hvalidActor hvalidResource
    refine ⟨decisionValue evaluation decidedAt, bind_eq_ok_iff.mpr ⟨evaluation, h, ?_⟩, ?_⟩
    · rw [hpermitted, if_neg (by decide)]
      exact bind_eq_ok_iff.mpr ⟨_, hdecision, rfl⟩
    · obtain ⟨statement, hstatement, -⟩ := bind_eq_ok_iff.mp hdecision
      exact parseStatement_returns _ _ hstatement ▸ hstatement

/-! ## Rejections -/

/-- No check of the policy reports that the actor may not decide. -/
theorem allAre_policyFailures (policy : AcceptancePolicy) (proposal : JsValue)
    (scope : ObservationScope) (acceptable : Acceptable) :
    AllAre (fun failure => failure.code ≠ .unauthorizedDecision)
      (policyFailures policy proposal scope acceptable) := by
  have hcheck : ∀ texts : CheckTexts, texts.conflict ≠ .unauthorizedDecision →
      texts.failed ≠ .unauthorizedDecision → texts.required ≠ .unauthorizedDecision →
        ∀ isRequired observations, AllAre (fun failure => failure.code ≠ .unauthorizedDecision)
          (checkFailures texts isRequired observations) :=
    fun _ hconflict hfailed hrequired _ _ => AllAre.ite (AllAre.single hconflict) <|
      AllAre.ite (AllAre.single hfailed) <| AllAre.ite (AllAre.single hrequired) AllAre.nil
  have hclaim : ∀ name, AllAre (fun failure => failure.code ≠ .unauthorizedDecision)
      (claimFailuresOf proposal policy acceptable.confirmations name) := by
    intro name
    refine AllAre.append (AllAre.append ?_ ?_) ?_
    · exact AllAre.ite AllAre.nil (AllAre.single (by simp))
    · exact AllAre.ite (AllAre.single (by simp)) AllAre.nil
    · exact AllAre.ite (AllAre.single (by simp)) AllAre.nil
  refine ((AllAre.append ?_ ?_).append ?_ |>.append ?_).append ?_
  · intro f hf
    obtain ⟨name, -, hf⟩ := List.mem_flatMap.mp hf
    exact hclaim name f hf
  · exact AllAre.ite (AllAre.single (by simp)) AllAre.nil
  · exact AllAre.ite (AllAre.single (by simp)) <| AllAre.ite (AllAre.single (by simp)) AllAre.nil
  · exact hcheck _ (by simp [validationTexts]) (by simp [validationTexts])
      (by simp [validationTexts]) _ _
  · cases policy.runner with
    | none => exact AllAre.nil
    | some rule =>
      exact hcheck _ (by simp [runnerTexts]) (by simp [runnerTexts]) (by simp [runnerTexts]) _ _

/-- Whoever may decide may reject. -/
theorem permitted_of_authorized {facts : EvaluationFacts}
    (hdecides : facts.actorAuthorizedToDecide = true) {policy : AcceptancePolicy}
    {proposal : JsValue} {scope : ObservationScope} {acceptable : Acceptable}
    (hchecks : facts.policyFailures = policyFailures policy proposal scope acceptable)
    (policy' : AcceptancePolicy) (rationale : StringClaim) :
    permittedForOutcome .rejected (facts.policyFailures ++
      authorizationFailures .rejected policy' facts ++
        overrideRationaleFailure .rejected rationale) = true := by
  have hauthorization : authorizationFailures .rejected policy' facts = [] := by
    simp [authorizationFailures, hdecides]
  have hrationale : overrideRationaleFailure .rejected rationale = [] := by
    simp [overrideRationaleFailure]
  rw [hauthorization, hrationale, hchecks, List.append_nil, List.append_nil]
  simp only [permittedForOutcome, Bool.not_eq_true', List.any_eq_false, decide_eq_true_eq]
  exact allAre_policyFailures _ _ _ _

/-! ## A name that is too long -/

/-- A request to reject, by an actor, under the policy that lets everyone decide. -/
def rejection (actor : ActorRef) : EvaluateAcceptanceInput := request actor .rejected []

/-- The request is permitted, whoever the actor is. -/
theorem permitted_rejection (actor : ActorRef) : ∃ evaluation,
    evaluateAcceptance requestHash (rejection actor) = .ok evaluation ∧
      evaluation.permitted = true := by
  have hcollected : collect requestHash requestContext.policy requestContext.subjects [] =
      .ok {} := rfl
  have hacceptable : acceptableOf requestContext.policy requestContext.subjects.result {} =
      .ok ⟨[], [], [], []⟩ := acceptableOf_eq_ok_iff.mpr fun profile => by cases profile <;> rfl
  obtain ⟨evaluation, facts, hevaluation, hdecides, -, hchecks, hpermitted⟩ :=
    evaluateAcceptance_request actor .rejected hcollected hacceptable
  refine ⟨evaluation, hevaluation, hpermitted.trans ?_⟩
  exact permitted_of_authorized hdecides hchecks _ _

/-- A claim of nothing is valid. -/
theorem isValidClaim_unspecified : IsValidClaim StringClaim.unspecified.value :=
  ⟨assertProtocolDomain_of_isUnicode (by decide), js "unspecified", by decide⟩

/-- The time at which the request is decided. -/
def decisionTime : JsString := js "2026-07-28T00:00:00.000Z"

/-- The rejection by an actor with a name of ordinary length is recorded. -/
theorem permitted_is_recorded_of_maintainer : ∃ evaluation decision,
    createDecisionStatement requestHash (rejection ⟨.human, js "human:maintainer"⟩) decisionTime =
        .ok (.created decision evaluation) ∧
      parseStatement decision = .ok decision := by
  obtain ⟨evaluation, h, hpermitted⟩ := permitted_rejection ⟨.human, js "human:maintainer"⟩
  have hactor : IsValidActor (ActorRef.mk .human (js "human:maintainer")).value :=
    ⟨assertProtocolDomain_of_isUnicode (by decide), by decide⟩
  have hresource : IsValidResource openPolicyResource :=
    ⟨assertProtocolDomain_of_isUnicode (by decide), by decide⟩
  exact ⟨evaluation, (permitted_is_recorded isHashText_requestHash
    (rejection _) evaluation h hpermitted
    decisionTime (show timestampPattern _ = true by decide) isValidClaim_unspecified).2.mpr
      ⟨hactor, hresource⟩⟩

/-- An actor whose name has one letter too many for the protocol. -/
def longName : ActorRef := ⟨.human, List.replicate 513 (unit 'a')⟩

/-- A string with more code points than the bound is refused. -/
theorem length_of_stringValue {s r path : JsString} {options : StringOptions} {most : ℕ}
    (h : stringValue (.str s) path options = .ok r) (hmost : options.max = some most) :
    ¬ most < (codePoints s).length := by
  intro hlong
  simp only [stringValue, hmost, Option.any_some, decide_eq_true hlong, if_true] at h
  split_ifs at h

/-- The protocol does not accept the name. -/
theorem not_isValidActor_longName : ¬ IsValidActor longName.value := by
  rintro ⟨-, h⟩
  obtain ⟨record, hrecord, h⟩ := bind_eq_ok_iff.mp h
  obtain rfl := JsValue.obj.inj (closedRecord_eq_ok_iff.mp hrecord).1
  obtain ⟨-, h⟩ := refuse_eq_ok_iff.mp h
  obtain ⟨name, hname, -⟩ := bind_eq_ok_iff.mp h
  have hascii : IsAscii longName.id := fun u hu => by
    rw [List.eq_of_mem_replicate hu]
    decide
  have hlength : (codePoints longName.id).length = 513 := by
    rw [codePoints_of_isAscii hascii, List.length_map]
    exact List.length_replicate
  exact length_of_stringValue hname rfl (by rw [hlength]; decide)

/-- The rejection by the actor is permitted, and no Statement records it. -/
theorem permitted_not_recorded : ∃ evaluation,
    evaluateAcceptance requestHash (rejection longName) = .ok evaluation ∧
      evaluation.permitted = true ∧ IsValidTimestamp decisionTime ∧
      IsValidClaim (rejection longName).rationale.value ∧
      ∀ decision, createDecisionStatement requestHash (rejection longName)
        decisionTime ≠ .ok (.created decision evaluation) := by
  obtain ⟨evaluation, h, hpermitted⟩ := permitted_rejection longName
  refine ⟨evaluation, h, hpermitted, show timestampPattern _ = true by decide,
    isValidClaim_unspecified, fun decision hcreated => ?_⟩
  obtain ⟨hactor, -⟩ := input_of_evaluateAcceptance h
  obtain ⟨evaluation', hevaluation', hcreated⟩ := bind_eq_ok_iff.mp hcreated
  obtain rfl := Except.ok.inj (h.symm.trans hevaluation')
  rw [hpermitted, if_neg (by decide)] at hcreated
  obtain ⟨decision', hdecision', -⟩ := bind_eq_ok_iff.mp hcreated
  have hvalid := (isValid_of_parseDecisionStatement hdecision').1
  rw [hactor] at hvalid
  exact not_isValidActor_longName hvalid

end T3x.Decision
