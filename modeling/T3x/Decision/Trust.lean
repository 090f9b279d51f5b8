import T3x.Decision.Evaluation
import T3x.Transition.Resolver

/-!
# Trust in a statement

What a selector selects and which issuers, tools and environments a policy
trusts, stated up to the order of members. The matchers of the evaluation
decide this: on values that have a canonical text they do not fail, and they
hold exactly of what is selected.
-/

namespace T3x.Decision

open Js Transition

/-! ## Canonical texts -/

instance {a b : JsValue} : Decidable (JsValue.Same a b) := inferInstanceAs (Decidable (_ = _))

/-- Canonical texts are equal exactly when the values are the same. -/
theorem canonicalText_eq_iff {a b : JsValue} {s t : JsString}
    (ha : canonicalizeProtocolValue a = .ok s) (hb : canonicalizeProtocolValue b = .ok t) :
    s = t ↔ JsValue.Same a b := by
  constructor
  · rintro rfl
    exact denote_eq_of_canonical ha hb
  · intro h
    exact Except.ok.inj ((canonicalizeProtocolValue_congr h ha).symm.trans hb)

/-- A comparison that succeeds tells whether the values are the same. -/
theorem canonicalEqual_eq_true_iff {a b : JsValue} {r : Bool} (h : canonicalEqual a b = .ok r) :
    r = true ↔ JsValue.Same a b := by
  obtain ⟨s, hs, hrest⟩ := bind_eq_ok_iff.mp h
  obtain ⟨t, ht, hlast⟩ := bind_eq_ok_iff.mp hrest
  obtain rfl := Except.ok.inj hlast
  rw [decide_eq_true_eq]
  exact canonicalText_eq_iff hs ht

/-- Values without lone surrogates are compared. -/
theorem exists_canonicalEqual {a b : JsValue} (ha : a.isUnicode = true) (hb : b.isUnicode = true) :
    ∃ r, canonicalEqual a b = .ok r := by
  obtain ⟨s, hs⟩ := exists_canonicalJson_iff.mpr ha
  obtain ⟨t, ht⟩ := exists_canonicalJson_iff.mpr hb
  exact ⟨_, bind_eq_ok_iff.mpr ⟨s, hs, bind_eq_ok_iff.mpr ⟨t, ht, rfl⟩⟩⟩

/-- A member of a value without lone surrogates has none. -/
theorem isUnicode_member {value : JsValue} (h : value.isUnicode = true) (key : String) :
    (value.member key).isUnicode = true := by
  cases value with
  | obj record =>
    rw [JsValue.member]
    cases hget : Record.get record (js key) with
    | none => rfl
    | some v => exact (JsValue.isUnicode_obj.mp h _ v hget).2
  | null | bool _ | num _ | str _ | arr _ => rfl

/-- An item of a value without lone surrogates has none. -/
theorem isUnicode_items {value : JsValue} (h : value.isUnicode = true) :
    ∀ item ∈ value.items, item.isUnicode = true := by
  cases value with
  | arr items => exact JsValue.isUnicode_arr.mp h
  | null | bool _ | num _ | str _ | obj _ => exact fun _ hitem => absurd hitem List.not_mem_nil

/-! ## Selectors -/

/-- The selector selects the value. -/
def ExactSelector.Selects : ExactSelector → JsValue → Prop
  | .any, _ => True
  | .oneOf values, value => ∃ candidate ∈ values, JsValue.Same candidate value

/-- The values of the selector have no lone surrogates. -/
def ExactSelector.IsUnicode : ExactSelector → Prop
  | .any => True
  | .oneOf values => ∀ candidate ∈ values, candidate.isUnicode = true

/-- The selector read from a value without lone surrogates. -/
theorem isUnicode_selectorOf {value : JsValue} (h : value.isUnicode = true) :
    (selectorOf value).IsUnicode := by
  unfold selectorOf
  split_ifs
  · trivial
  · exact isUnicode_items (isUnicode_member h "values")

/-- A match that succeeds tells whether the value is selected. -/
theorem selectorMatches_eq_true_iff {selector : ExactSelector} {value : JsValue} {b : Bool}
    (h : selectorMatches selector value = .ok b) : b = true ↔ selector.Selects value := by
  cases selector with
  | any =>
    obtain rfl := Except.ok.inj h
    exact iff_of_true rfl trivial
  | oneOf values =>
    obtain ⟨key, hkey, hany⟩ := bind_eq_ok_iff.mp h
    rw [anyM_eq_true_iff hany]
    apply exists_congr
    intro candidate
    refine and_congr_right fun _ => ⟨fun htest => ?_, fun hsame => ?_⟩
    · obtain ⟨candidateKey, hcandidate, heq⟩ := bind_eq_ok_iff.mp htest
      exact (canonicalText_eq_iff hcandidate hkey).mp (of_decide_eq_true (Except.ok.inj heq))
    · have hcandidate := canonicalizeProtocolValue_congr hsame.symm hkey
      exact bind_eq_ok_iff.mpr ⟨key, hcandidate, congrArg Except.ok (decide_eq_true rfl)⟩

/-- Values without lone surrogates are matched. -/
theorem exists_selectorMatches {selector : ExactSelector} {value : JsValue}
    (hselector : selector.IsUnicode) (hvalue : value.isUnicode = true) :
    ∃ b, selectorMatches selector value = .ok b := by
  cases selector with
  | any => exact ⟨true, rfl⟩
  | oneOf values =>
    obtain ⟨key, hkey⟩ := exists_canonicalJson_iff.mpr hvalue
    have htests : ∀ candidate ∈ values, ∃ b : Bool, (do
        let candidateKey ← canonicalKey candidate
        return decide (candidateKey = key)) = .ok b := by
      intro candidate hcandidate
      obtain ⟨text, htext⟩ := exists_canonicalJson_iff.mpr (hselector candidate hcandidate)
      exact ⟨_, bind_eq_ok_iff.mpr ⟨text, htext, rfl⟩⟩
    obtain ⟨b, hb⟩ := exists_anyM htests
    exact ⟨b, bind_eq_ok_iff.mpr ⟨key, hkey, hb⟩⟩

/-! ## Sources of statements -/

/-- The statement names its issuer as its actor. -/
def StatementObservation.IsAuthentic (observation : StatementObservation) : Prop :=
  sameActor (observation.statement.member "actor") observation.issuerContext.actor.value = true

/-- The selector trusts the issuer of the statement. -/
def TrustsIssuer (issuers : ExactSelector) (observation : StatementObservation) : Prop :=
  observation.IsAuthentic ∧ issuers.Selects observation.issuerContext.actor.value

/-- The rule trusts the issuer, the tool and the environment of the statement. -/
structure TrustRule.Trusts (rule : TrustRule) (observation : StatementObservation) : Prop where
  /-- The issuer is trusted. -/
  issuer : TrustsIssuer rule.issuers observation
  /-- The tool is trusted. -/
  tool : rule.tools.Selects ((predicateOf observation.statement).member "tool")
  /-- The environment is trusted. -/
  environment : rule.environments.Selects ((predicateOf observation.statement).member "environment")

/-- The policy's rule for the profile trusts the source of the statement. -/
def AcceptancePolicy.Trusts (policy : AcceptancePolicy) (observation : StatementObservation) :
    Profile → Prop
  | .replay => policy.replay.Trusts observation
  | .validation => policy.validation.Trusts observation
  | .runner => ∃ rule, policy.runner = some rule ∧ rule.Trusts observation
  | .humanConfirmation => TrustsIssuer policy.confirmers observation

/-- The selectors of the rule have no lone surrogates. -/
structure TrustRule.IsUnicode (rule : TrustRule) : Prop where
  /-- The issuers. -/
  issuers : rule.issuers.IsUnicode
  /-- The tools. -/
  tools : rule.tools.IsUnicode
  /-- The environments. -/
  environments : rule.environments.IsUnicode
  /-- The workflows. -/
  workflows : rule.workflows.IsUnicode

/-- The rule read from a value without lone surrogates. -/
theorem isUnicode_trustRuleOf {value : JsValue} (h : value.isUnicode = true) :
    (trustRuleOf value).IsUnicode :=
  ⟨isUnicode_selectorOf (isUnicode_member h _), isUnicode_selectorOf (isUnicode_member h _),
    isUnicode_selectorOf (isUnicode_member h _), isUnicode_selectorOf (isUnicode_member h _)⟩

/-- The issuer that a statement without lone surrogates names has none. -/
theorem isUnicode_issuer {observation : StatementObservation}
    (h : observation.statement.isUnicode = true) (hauthentic : observation.IsAuthentic) :
    observation.issuerContext.actor.value.isUnicode = true := by
  obtain ⟨statement, ⟨kind, id⟩⟩ := observation
  simp only [StatementObservation.IsAuthentic, sameActor, Bool.and_eq_true, decide_eq_true_eq]
    at hauthentic
  have hid := isUnicode_member (isUnicode_member h "actor") "id"
  rw [hauthentic.2] at hid
  apply JsValue.isUnicode_obj.mpr
  intro key v hget
  simp only [Record.get] at hget
  split_ifs at hget with hkind hkey
  · obtain rfl := Option.some.inj hget
    exact ⟨hkind ▸ (by decide), by cases kind <;> decide⟩
  · obtain rfl := Option.some.inj hget
    exact ⟨hkey ▸ (by decide), hid⟩

/-- The match of an issuer of a statement without lone surrogates succeeds. -/
theorem exists_issuerMatches {issuers : ExactSelector} {observation : StatementObservation}
    (hissuers : issuers.IsUnicode) (h : observation.statement.isUnicode = true)
    {more : Except ProtocolError Bool} (hmore : ∃ b, more = .ok b) : ∃ b,
    andThen (.ok (sameActor (observation.statement.member "actor")
      observation.issuerContext.actor.value))
      (andThen (selectorMatches issuers observation.issuerContext.actor.value) more) = .ok b := by
  cases hauthentic : sameActor (observation.statement.member "actor")
      observation.issuerContext.actor.value with
  | false => exact ⟨false, rfl⟩
  | true =>
    apply exists_andThen ⟨true, rfl⟩
    exact exists_andThen (exists_selectorMatches hissuers (isUnicode_issuer h hauthentic)) hmore

/-- The matched issuer is trusted. -/
theorem trustsIssuer_of_matches {issuers : ExactSelector} {observation : StatementObservation}
    {more : Except ProtocolError Bool}
    (h : andThen (.ok (sameActor (observation.statement.member "actor")
      observation.issuerContext.actor.value))
      (andThen (selectorMatches issuers observation.issuerContext.actor.value) more) = .ok true) :
    TrustsIssuer issuers observation ∧ more = .ok true := by
  obtain ⟨hauthentic, hrest⟩ := andThen_eq_true_iff.mp h
  obtain ⟨hissuer, hmore⟩ := andThen_eq_true_iff.mp hrest
  exact ⟨⟨Except.ok.inj hauthentic, (selectorMatches_eq_true_iff hissuer).mp rfl⟩, hmore⟩

section

variable {rule : TrustRule} {observation : StatementObservation}

/-- The match of a source of a statement without lone surrogates succeeds. -/
theorem exists_sourceMatches (hrule : rule.IsUnicode)
    (h : observation.statement.isUnicode = true) :
    ∃ b, sourceMatches rule observation = .ok b := by
  have hpredicate := isUnicode_member h "predicate"
  apply exists_issuerMatches hrule.issuers h
  exact exists_andThen (exists_selectorMatches hrule.tools (isUnicode_member hpredicate "tool"))
    (exists_selectorMatches hrule.environments (isUnicode_member hpredicate "environment"))

/-- A match of a source that succeeds tells whether the source is trusted. -/
theorem sourceMatches_eq_true_iff {b : Bool} (h : sourceMatches rule observation = .ok b) :
    b = true ↔ rule.Trusts observation := by
  constructor
  · rintro rfl
    obtain ⟨hissuer, hrest⟩ := trustsIssuer_of_matches h
    obtain ⟨htool, henvironment⟩ := andThen_eq_true_iff.mp hrest
    exact ⟨hissuer, (selectorMatches_eq_true_iff htool).mp rfl,
      (selectorMatches_eq_true_iff henvironment).mp rfl⟩
  · intro htrusts
    unfold sourceMatches at h
    simp only [show sameActor _ _ = true from htrusts.issuer.1] at h
    rcases andThen_eq_ok_iff.mp h with ⟨h, -⟩ | ⟨-, h⟩
    · cases h
    rcases andThen_eq_ok_iff.mp h with ⟨hissuer, -⟩ | ⟨-, h⟩
    · exact absurd ((selectorMatches_eq_true_iff hissuer).mpr htrusts.issuer.2) (by simp)
    rcases andThen_eq_ok_iff.mp h with ⟨htool, -⟩ | ⟨-, h⟩
    · exact absurd ((selectorMatches_eq_true_iff htool).mpr htrusts.tool) (by simp)
    exact (selectorMatches_eq_true_iff h).mpr htrusts.environment

/-- The source of a statement that is not trusted is not matched. -/
theorem sourceMatches_eq_false (hrule : rule.IsUnicode)
    (h : observation.statement.isUnicode = true) (huntrusted : ¬ rule.Trusts observation) :
    sourceMatches rule observation = .ok false := by
  obtain ⟨b, hb⟩ := exists_sourceMatches hrule h
  cases b with
  | false => exact hb
  | true => exact absurd ((sourceMatches_eq_true_iff hb).mp rfl) huntrusted

/-- A replay verification from a source that is not trusted is not acceptable. -/
theorem statementTrustMatches_eq_false (hrule : rule.IsUnicode)
    (h : observation.statement.isUnicode = true) (huntrusted : ¬ rule.Trusts observation)
    (claimedResult : JsValue) : statementTrustMatches rule claimedResult observation = .ok false :=
  andThen_eq_ok_iff.mpr (.inl ⟨sourceMatches_eq_false hrule h huntrusted, rfl⟩)

/-- A validation from a source that is not trusted is not acceptable. -/
theorem validationTrustMatches_eq_false (hrule : rule.IsUnicode)
    (h : observation.statement.isUnicode = true) (huntrusted : ¬ rule.Trusts observation) :
    validationTrustMatches rule observation = .ok false :=
  andThen_eq_ok_iff.mpr (.inl ⟨sourceMatches_eq_false hrule h huntrusted, rfl⟩)

/-- A runner validation from a source that is not trusted is not acceptable. -/
theorem runnerTrustMatches_eq_false (hrule : rule.IsUnicode)
    (h : observation.statement.isUnicode = true) (huntrusted : ¬ rule.Trusts observation) :
    runnerTrustMatches rule observation = .ok false := by
  have hpredicate := isUnicode_member h "predicate"
  have hexists : ∃ b, runnerTrustMatches rule observation = .ok b := by
    apply exists_issuerMatches hrule.issuers h
    apply exists_andThen (exists_selectorMatches hrule.tools (isUnicode_member hpredicate "tool"))
    exact exists_andThen
      (exists_selectorMatches hrule.workflows (isUnicode_member hpredicate "workflow"))
      (exists_selectorMatches hrule.environments (isUnicode_member hpredicate "environment"))
  obtain ⟨b, hb⟩ := hexists
  cases b with
  | false => exact hb
  | true =>
    -- the workflow stands between the tool and the environment
    obtain ⟨hissuer, hrest⟩ := trustsIssuer_of_matches hb
    obtain ⟨htool, hrest'⟩ := andThen_eq_true_iff.mp hrest
    obtain ⟨-, henvironment⟩ := andThen_eq_true_iff.mp hrest'
    exact absurd ⟨hissuer, (selectorMatches_eq_true_iff htool).mp rfl,
      (selectorMatches_eq_true_iff henvironment).mp rfl⟩ huntrusted

/-- A confirmation by an issuer that is not trusted is not acceptable. -/
theorem confirmationTrustMatches_eq_false {issuers : ExactSelector} (hissuers : issuers.IsUnicode)
    (h : observation.statement.isUnicode = true) (huntrusted : ¬ TrustsIssuer issuers observation) :
    confirmationTrustMatches issuers observation = .ok false := by
  unfold confirmationTrustMatches
  cases hauthentic : sameActor (observation.statement.member "actor")
      observation.issuerContext.actor.value with
  | false => rfl
  | true =>
    obtain ⟨b, hb⟩ := exists_selectorMatches hissuers (isUnicode_issuer h hauthentic)
    cases b with
    | false => exact andThen_eq_ok_iff.mpr (.inr ⟨rfl, hb⟩)
    | true => exact absurd ⟨hauthentic, (selectorMatches_eq_true_iff hb).mp rfl⟩ huntrusted

end

end T3x.Decision
