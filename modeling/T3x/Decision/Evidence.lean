import T3x.Decision.Trust

/-!
# What the statements contribute

Every statement contributes on its own: to one profile, when its predicate type
is that of the profile and its subject the profile's. So the verdict depends on
the statements only as a set, and on the trusted ones alone.
-/

namespace T3x.Decision

open Js Transition

/-! ## Statements of a profile -/

/-- The parser of the statements of a profile. -/
def Profile.parse : Profile → JsValue → Except ProtocolError JsValue
  | .replay => parseReplayVerificationStatement
  | .validation => parseYSchemaValidationStatement
  | .runner => parseRunnerValidationStatement
  | .humanConfirmation => parseHumanConfirmationStatement

/-- Profiles have different predicate types. -/
theorem Profile.predicateType_inj {p q : Profile} : p.predicateType = q.predicateType ↔ p = q := by
  constructor
  · intro h
    cases p <;> cases q <;> first | rfl | exact absurd h (by decide)
  · rintro rfl
    rfl

/-- What a profile's parser returns is what it is given. -/
theorem parseProfileStatement_returns (profile : Profile)
    (checkActor : JsValue → Except ProtocolError Unit) (a : JsValue) :
    Returns (parseProfileStatement profile checkActor a) (· = a) := by
  intro parsed h
  obtain ⟨statement, hstatement, hrest⟩ := bind_eq_ok_iff.mp h
  obtain rfl := parseStatement_returns a statement hstatement
  obtain ⟨-, hsubject⟩ := refuse_eq_ok_iff.mp hrest
  obtain ⟨_, -, hactor⟩ := bind_eq_ok_iff.mp hsubject
  obtain ⟨_, -, hpredicate⟩ := bind_eq_ok_iff.mp hactor
  obtain ⟨-, hlast⟩ := refuse_eq_ok_iff.mp hpredicate
  exact (Except.ok.inj hlast).symm

/-- What a profile's parser returns is what it is given. -/
theorem Profile.parse_returns (profile : Profile) (a : JsValue) :
    Returns (profile.parse a) (· = a) := by
  cases profile <;> exact parseProfileStatement_returns _ _ a

/-- The statement has one subject, the same as the target. -/
def IsAbout (statement target : JsValue) : Prop :=
  ∃ subject, (statement.member "subjects").items = [subject] ∧ JsValue.Same subject target

/-- A test of the subject that succeeds tells what the statement is about. -/
theorem hasSubject_eq_true_iff {statement target : JsValue} {b : Bool}
    (h : hasSubject statement target = .ok b) : b = true ↔ IsAbout statement target := by
  unfold hasSubject at h
  unfold IsAbout
  split at h
  next subject hitems =>
    rw [hitems, canonicalEqual_eq_true_iff h]
    simp
  next hitems =>
    obtain rfl := Except.ok.inj h
    simp only [Bool.false_eq_true, false_iff, not_exists, not_and]
    intro subject hsubject
    exact absurd hsubject (hitems subject)

/-- The subject of a statement without lone surrogates is tested. -/
theorem exists_hasSubject {statement target : JsValue} (h : statement.isUnicode = true)
    (htarget : target.isUnicode = true) : ∃ b, hasSubject statement target = .ok b := by
  unfold hasSubject
  split
  next subject hitems =>
    have hsubject := isUnicode_items (isUnicode_member h "subjects") subject
      (hitems ▸ List.mem_singleton_self _)
    exact exists_canonicalEqual hsubject htarget
  next => exact ⟨false, rfl⟩

/-- The subject of the statements of a profile. -/
def Subjects.of (subjects : Subjects) : Profile → JsValue
  | .replay => subjects.effect
  | .validation | .runner => subjects.result
  | .humanConfirmation => subjects.proposal

/-- A statement of a profile is relevant when it is about the profile's subject, and the policy
has a rule for the profile. -/
theorem isRelevant_eq_true_iff {policy : AcceptancePolicy} {subjects : Subjects}
    {statement : JsValue} {b : Bool} {profile : Profile}
    (h : isRelevant policy subjects statement = .ok b)
    (htype : predicateTypeOf statement = profile.predicateType) :
    b = true ↔ IsAbout statement (subjects.of profile) ∧
      (profile = .runner → policy.runner.isSome = true) := by
  obtain ⟨replay, hreplay, hrest⟩ := bind_eq_ok_iff.mp h
  obtain ⟨validation, hvalidation, hrest'⟩ := bind_eq_ok_iff.mp hrest
  obtain ⟨runner, hrunner, hrest''⟩ := bind_eq_ok_iff.mp hrest'
  obtain ⟨confirmation, hconfirmation, hlast⟩ := bind_eq_ok_iff.mp hrest''
  obtain rfl := Except.ok.inj hlast
  rw [htype] at hreplay hvalidation hrunner hconfirmation
  -- a conjunction with a test that fails is false, one with a test that holds is its first part
  have hfalse : ∀ {x : Except ProtocolError Bool} {c : Bool}, andThen x (.ok false) = .ok c →
      c = false := by
    intro x c hc
    rcases andThen_eq_ok_iff.mp hc with ⟨-, rfl⟩ | ⟨-, hc⟩
    · rfl
    · exact (Except.ok.inj hc).symm
  have htrue : ∀ {x : Except ProtocolError Bool} {c : Bool}, andThen x (.ok true) = .ok c →
      x = .ok c := by
    intro x c hc
    rcases andThen_eq_ok_iff.mp hc with ⟨hx, rfl⟩ | ⟨hx, hc⟩
    · exact hx
    · rw [hx, hc]
  have hnone : ∀ {y : Except ProtocolError Bool} {c : Bool},
      andThen (.ok policy.runner.isSome) (andThen y (.ok false)) = .ok c → c = false := by
    intro y c hc
    rcases andThen_eq_ok_iff.mp hc with ⟨-, rfl⟩ | ⟨-, hc⟩
    · rfl
    · exact hfalse hc
  cases profile with
  | replay =>
    obtain rfl := hfalse hvalidation
    obtain rfl := hnone hrunner
    obtain rfl := hfalse hconfirmation
    simpa [Subjects.of] using hasSubject_eq_true_iff (htrue hreplay)
  | validation =>
    obtain rfl := hfalse hreplay
    obtain rfl := hnone hrunner
    obtain rfl := hfalse hconfirmation
    simpa [Subjects.of] using hasSubject_eq_true_iff (htrue hvalidation)
  | runner =>
    obtain rfl := hfalse hreplay
    obtain rfl := hfalse hvalidation
    obtain rfl := hfalse hconfirmation
    cases hsome : policy.runner.isSome with
    | false =>
      rw [hsome] at hrunner
      obtain rfl := Except.ok.inj hrunner
      simp
    | true =>
      rw [hsome] at hrunner
      simpa [Subjects.of] using hasSubject_eq_true_iff (htrue hrunner)
  | humanConfirmation =>
    obtain rfl := hfalse hreplay
    obtain rfl := hfalse hvalidation
    obtain rfl := hnone hrunner
    simpa [Subjects.of] using hasSubject_eq_true_iff (htrue hconfirmation)

/-! ## Collecting -/

/-- The collected statements of a profile. -/
def Collected.part (collected : Collected) : Profile → List StatementObservation
  | .replay => collected.replayStatements
  | .validation => collected.validationStatements
  | .runner => collected.runnerStatements
  | .humanConfirmation => collected.confirmations

/-- One statement of a profile. -/
def Collected.single (descriptor : ObjectDescriptor) (observation : StatementObservation) :
    Profile → Collected
  | .replay => { considered := [descriptor], replayStatements := [observation] }
  | .validation => { considered := [descriptor], validationStatements := [observation] }
  | .runner => { considered := [descriptor], runnerStatements := [observation] }
  | .humanConfirmation => { considered := [descriptor], confirmations := [observation] }

/-- One statement is collected for its profile. -/
theorem Collected.mem_part_single {descriptor : ObjectDescriptor}
    {observation other : StatementObservation} {p q : Profile} :
    other ∈ (Collected.single descriptor observation p).part q ↔ other = observation ∧ p = q := by
  cases p <;> cases q <;> simp [Collected.single, Collected.part]

section

variable {sha256 : List UInt8 → JsString} {policy : AcceptancePolicy} {subjects : Subjects}
  {observation : StatementObservation} {one : Collected}

/-- What one statement adds: nothing when it is irrelevant, its descriptor alone when it is of
no profile, else itself for its profile. -/
theorem collectOne_cases (h : collectOne sha256 policy subjects observation = .ok one) :
    (isRelevant policy subjects observation.statement = .ok false ∧ one = {}) ∨
    isRelevant policy subjects observation.statement = .ok true ∧ ∃ descriptor,
      describeProtocolObject sha256 observation.statement = .ok descriptor ∧
      (((∀ profile : Profile, predicateTypeOf observation.statement ≠ profile.predicateType) ∧
          one = { considered := [descriptor] }) ∨
        ∃ profile : Profile, predicateTypeOf observation.statement = profile.predicateType ∧
          profile.parse observation.statement = .ok observation.statement ∧
          one = .single descriptor observation profile) := by
  obtain ⟨statement, context⟩ := observation
  obtain ⟨parsed, hparsed, hrest⟩ := bind_eq_ok_iff.mp h
  obtain rfl := parseStatement_returns statement parsed hparsed
  obtain ⟨relevant, hrelevant, hmore⟩ := bind_eq_ok_iff.mp hrest
  cases relevant with
  | false => exact .inl ⟨hrelevant, (Except.ok.inj hmore).symm⟩
  | true =>
    obtain ⟨descriptor, hdescriptor, hlast⟩ := bind_eq_ok_iff.mp hmore
    refine .inr ⟨hrelevant, descriptor, hdescriptor, ?_⟩
    have hone : ∀ profile : Profile, predicateTypeOf parsed = profile.predicateType →
        (∃ back, profile.parse parsed = .ok back ∧
          one = .single descriptor ⟨back, context⟩ profile) →
        ∃ p : Profile, predicateTypeOf parsed = p.predicateType ∧ p.parse parsed = .ok parsed ∧
          one = .single descriptor ⟨parsed, context⟩ p := by
      rintro profile htype ⟨back, hback, hone⟩
      obtain rfl := profile.parse_returns parsed back hback
      exact ⟨profile, htype, hback, hone⟩
    split_ifs at hlast with h1 h2 h3 h4
    · obtain ⟨back, hback, heq⟩ := bind_eq_ok_iff.mp hlast
      exact .inr (hone .replay h1 ⟨back, hback, (Except.ok.inj heq).symm⟩)
    · obtain ⟨back, hback, heq⟩ := bind_eq_ok_iff.mp hlast
      exact .inr (hone .validation h2 ⟨back, hback, (Except.ok.inj heq).symm⟩)
    · obtain ⟨back, hback, heq⟩ := bind_eq_ok_iff.mp hlast
      exact .inr (hone .runner h3 ⟨back, hback, (Except.ok.inj heq).symm⟩)
    · obtain ⟨back, hback, heq⟩ := bind_eq_ok_iff.mp hlast
      exact .inr (hone .humanConfirmation h4 ⟨back, hback, (Except.ok.inj heq).symm⟩)
    · refine .inl ⟨fun profile => ?_, (Except.ok.inj hlast).symm⟩
      cases profile
      · exact h1
      · exact h2
      · exact h3
      · exact h4

/-- A statement is collected for a profile when it has the profile's predicate type and subject
and the policy has a rule for the profile. -/
theorem mem_part_collectOne (h : collectOne sha256 policy subjects observation = .ok one)
    (profile : Profile) (other : StatementObservation) :
    other ∈ one.part profile ↔ other = observation ∧
      predicateTypeOf observation.statement = profile.predicateType ∧
      IsAbout observation.statement (subjects.of profile) ∧
      (profile = .runner → policy.runner.isSome = true) := by
  rcases collectOne_cases h with ⟨hrelevant, rfl⟩ | ⟨hrelevant, descriptor, -, hone⟩
  · have hnone : other ∉ ({} : Collected).part profile := by cases profile <;> simp [Collected.part]
    refine iff_of_false hnone fun ⟨_, htype, habout⟩ => ?_
    exact absurd ((isRelevant_eq_true_iff hrelevant htype).mpr habout) (by simp)
  · rcases hone with ⟨hother, rfl⟩ | ⟨p, htype, -, rfl⟩
    · have hnone : other ∉ ({ considered := [descriptor] } : Collected).part profile := by
        cases profile <;> simp [Collected.part]
      exact iff_of_false hnone fun h => hother profile h.2.1
    · rw [Collected.mem_part_single, htype, Profile.predicateType_inj]
      refine and_congr_right fun _ => ⟨?_, And.left⟩
      rintro rfl
      exact ⟨rfl, (isRelevant_eq_true_iff hrelevant htype).mp rfl⟩

/-- What is collected from a list is what is collected from its members. -/
theorem mem_collect {T : Type} (part : Collected → List T) (hempty : part {} = [])
    (happend : ∀ a b, part (Collected.append a b) = part a ++ part b)
    {observations : List StatementObservation} {collected : Collected}
    (h : collect sha256 policy subjects observations = .ok collected) (value : T) :
    value ∈ part collected ↔ ∃ o ∈ observations, ∃ one,
      collectOne sha256 policy subjects o = .ok one ∧ value ∈ part one := by
  induction observations generalizing collected with
  | nil =>
    obtain rfl := Except.ok.inj h
    simp [hempty]
  | cons head observations ih =>
    obtain ⟨one, hone, hrest⟩ := bind_eq_ok_iff.mp h
    obtain ⟨rest, hmore, hlast⟩ := bind_eq_ok_iff.mp hrest
    obtain rfl := Except.ok.inj hlast
    rw [happend, List.mem_append, ih hmore]
    simp [hone]

/-- Collecting succeeds exactly when every statement is collected. -/
theorem exists_collect_iff {observations : List StatementObservation} :
    (∃ collected, collect sha256 policy subjects observations = .ok collected) ↔
      ∀ o ∈ observations, ∃ one, collectOne sha256 policy subjects o = .ok one := by
  induction observations with
  | nil => exact ⟨fun _ _ h => absurd h List.not_mem_nil, fun _ => ⟨{}, rfl⟩⟩
  | cons head observations ih =>
    rw [List.forall_mem_cons, ← ih]
    constructor
    · rintro ⟨collected, h⟩
      obtain ⟨one, hone, hrest⟩ := bind_eq_ok_iff.mp h
      obtain ⟨rest, hmore, -⟩ := bind_eq_ok_iff.mp hrest
      exact ⟨⟨one, hone⟩, rest, hmore⟩
    · rintro ⟨⟨one, hone⟩, rest, hmore⟩
      exact ⟨_, bind_eq_ok_iff.mpr ⟨one, hone, bind_eq_ok_iff.mpr ⟨rest, hmore, rfl⟩⟩⟩

end

/-! ## The verdict and the statements -/

/-- The matcher of a profile's statements. -/
def AcceptancePolicy.matches (policy : AcceptancePolicy) (result : JsValue) :
    Profile → StatementObservation → Except ProtocolError Bool
  | .replay => statementTrustMatches policy.replay result
  | .validation => validationTrustMatches policy.validation
  | .runner => fun observation =>
    match policy.runner with
    | none => .ok false
    | some rule => runnerTrustMatches rule observation
  | .humanConfirmation => confirmationTrustMatches policy.confirmers

/-- The acceptable statements of a profile. -/
def Acceptable.part (acceptable : Acceptable) : Profile → List StatementObservation
  | .replay => acceptable.replay
  | .validation => acceptable.validation
  | .runner => acceptable.runner
  | .humanConfirmation => acceptable.confirmations

section

variable {sha256 : List UInt8 → JsString} {policy : AcceptancePolicy} {result : JsValue}

/-- The acceptable runner validations are the matched ones. -/
theorem acceptableRunner_eq (collected : Collected) :
    acceptableRunner policy collected =
      keep (policy.matches result .runner) (collected.part .runner) := by
  unfold acceptableRunner AcceptancePolicy.matches
  cases policy.runner with
  | none => exact keep_false.symm
  | some rule => rfl

/-- The acceptable statements of a profile are the matched ones. -/
theorem acceptableOf_eq_ok_iff {collected : Collected} {acceptable : Acceptable} :
    acceptableOf policy result collected = .ok acceptable ↔ ∀ profile : Profile,
      keep (policy.matches result profile) (collected.part profile) =
        .ok (acceptable.part profile) := by
  constructor
  · intro h
    obtain ⟨replay, hreplay, hrest⟩ := bind_eq_ok_iff.mp h
    obtain ⟨validation, hvalidation, hrest'⟩ := bind_eq_ok_iff.mp hrest
    obtain ⟨runner, hrunner, hrest''⟩ := bind_eq_ok_iff.mp hrest'
    obtain ⟨confirmations, hconfirmations, hlast⟩ := bind_eq_ok_iff.mp hrest''
    obtain rfl := Except.ok.inj hlast
    intro profile
    cases profile with
    | replay => exact hreplay
    | validation => exact hvalidation
    | runner => exact (acceptableRunner_eq collected).symm.trans hrunner
    | humanConfirmation => exact hconfirmations
  · intro h
    refine bind_eq_ok_iff.mpr ⟨acceptable.replay, h .replay, ?_⟩
    refine bind_eq_ok_iff.mpr ⟨acceptable.validation, h .validation, ?_⟩
    refine bind_eq_ok_iff.mpr ⟨acceptable.runner, ?_, ?_⟩
    · exact (acceptableRunner_eq collected).trans (h .runner)
    · exact bind_eq_ok_iff.mpr ⟨acceptable.confirmations, h .humanConfirmation, rfl⟩

end

end T3x.Decision
