import T3x.Js.Agree
import T3x.Transition.Parse

/-!
# The schemas do not depend on the order of members

Every check of the closed schemas agrees on values that are equal up to the
order of members and the sign of zero: both are refused, or both are accepted
with the same result. So a protocol object that is read back from its canonical
bytes is a protocol object again.
-/

namespace T3x.Transition

open Js

variable {a b : JsValue} {path : JsString}

/-- The domain check agrees on the same values. -/
theorem assertProtocolDomain_agree (h : JsValue.Same a b) :
    Agree Eq (assertProtocolDomain a) (assertProtocolDomain b) := by
  unfold assertProtocolDomain
  cases ha : canonicalizeProtocolValue a with
  | ok text =>
    rw [canonicalizeProtocolValue_congr h ha]
    exact rfl
  | error e =>
    cases hb : canonicalizeProtocolValue b with
    | ok text =>
      rw [canonicalizeProtocolValue_congr h.symm hb] at ha
      simp at ha
    | error e' => exact trivial

/-- The canonical bytes of the same values agree. -/
theorem canonicalProtocolBytes_agree (h : JsValue.Same a b) :
    Agree Eq (canonicalProtocolBytes a) (canonicalProtocolBytes b) := by
  unfold canonicalProtocolBytes
  cases ha : canonicalizeProtocolValue a with
  | ok text =>
    rw [canonicalizeProtocolValue_congr h ha]
    exact rfl
  | error e =>
    cases hb : canonicalizeProtocolValue b with
    | ok text =>
      rw [canonicalizeProtocolValue_congr h.symm hb] at ha
      simp at ha
    | error e' => exact trivial

/-- Finding a key that is not allowed succeeds on both lists of the same keys or on none. -/
theorem find_eq_none_congr {keys keys' : List JsString} {p : JsString → Bool}
    (h : ∀ key, key ∈ keys ↔ key ∈ keys') : keys.find? p = none ↔ keys'.find? p = none := by
  simp only [List.find?_eq_none, h]

/-- A closed record of the same values is the same record. -/
theorem closedRecord_agree (h : JsValue.Same a b) (required allowed : List JsString) :
    Agree Record.Same (closedRecord a path required allowed)
      (closedRecord b path required allowed) := by
  cases h.cases with
  | leaf hleaf =>
    unfold closedRecord
    cases a with
    | obj members => exact absurd rfl (hleaf.2 members)
    | _ => exact trivial
  | num n n' => exact trivial
  | arr h => exact trivial
  | @obj members members' hm =>
    have hkeys : ∀ key, key ∈ Record.keys members ↔ key ∈ Record.keys members' := fun key => by
      rw [Record.mem_keys, Record.mem_keys, hm.has_eq]
    have hunknown := find_eq_none_congr (p := fun key => !allowed.contains key) hkeys
    have hmissing : (fun key => !Record.has members key) = fun key => !Record.has members' key :=
      funext fun key => by rw [hm.has_eq]
    unfold closedRecord
    dsimp only
    rw [hmissing]
    cases hfind : (Record.keys members).find? fun key => !allowed.contains key with
    | none =>
      rw [hunknown.mp hfind]
      cases required.find? fun key => !Record.has members' key with
      | none => exact hm
      | some key => exact trivial
    | some key =>
      cases hfind' : (Record.keys members').find? fun key => !allowed.contains key with
      | none =>
        rw [hunknown.mpr hfind'] at hfind
        simp at hfind
      | some key' => exact trivial

/-- A required member of the same records is the same. -/
theorem field_same {m m' : Record JsValue} (h : Record.Same m m') (key : String) :
    JsValue.Same (field m key) (field m' key) := h.getD _ _

/-- The arrays of the same values have the same items. -/
theorem arrayValue_agree (h : JsValue.Same a b) :
    Agree (List.Forall₂ JsValue.Same) (arrayValue a path) (arrayValue b path) := by
  cases h.cases with
  | leaf hleaf =>
    unfold arrayValue
    cases a with
    | arr items => exact absurd rfl (hleaf.1 items)
    | _ => exact trivial
  | num n n' => exact trivial
  | arr hitems => exact hitems
  | obj _ => exact trivial

/-- The strings of the same values are equal. -/
theorem stringValue_agree (h : JsValue.Same a b) (options : StringOptions) :
    Agree Eq (stringValue a path options) (stringValue b path options) := by
  cases h.cases with
  | leaf _ => exact .rfl
  | num n n' => exact trivial
  | arr h => exact trivial
  | obj h => exact trivial

/-- The same values are a literal or are not. -/
theorem literal_agree (h : JsValue.Same a b) (expected : JsString) :
    Agree Eq (literal a expected path) (literal b expected path) := by
  unfold literal
  by_cases ha : a = .str expected
  · rw [if_pos ha, if_pos (h.eq_str_iff.mp ha)]
    exact rfl
  · rw [if_neg ha, if_neg fun hb => ha (h.eq_str_iff.mpr hb)]
    exact trivial

/-- The comparison of the same values agrees. -/
theorem compareCanonicalValues_agree {a' b' : JsValue} (h : JsValue.Same a b)
    (h' : JsValue.Same a' b') :
    Agree Eq (compareCanonicalValues a a') (compareCanonicalValues b b') := by
  refine (canonicalProtocolBytes_agree h).bind ?_
  rintro bytes _ rfl
  refine (canonicalProtocolBytes_agree h').bind ?_
  rintro bytes' _ rfl
  exact rfl

/-- Lists of the same values are both canonical sets or neither is. -/
theorem canonicalSet_agree {values values' : List JsValue}
    (h : List.Forall₂ JsValue.Same values values') :
    Agree Eq (canonicalSet path values) (canonicalSet path values') := by
  induction h with
  | nil => exact rfl
  | cons h hrest ih =>
    cases hrest with
    | nil => exact rfl
    | cons h' hrest =>
      refine (compareCanonicalValues_agree h h').bind ?_
      rintro comparison _ rfl
      refine .ite (fun _ => trivial) fun _ => .ite (fun _ => trivial) fun _ => ih

/-- Checks that agree on the same values agree on the items of the same arrays. -/
theorem eachItem_agree {T : Type} (check : JsValue → JsString → Except ProtocolError T)
    (hcheck : ∀ a b path, JsValue.Same a b → Agree Eq (check a path) (check b path))
    {items items' : List JsValue} (h : List.Forall₂ JsValue.Same items items') (index : ℕ) :
    Agree Eq (eachItem check path index items) (eachItem check path index items') := by
  induction h generalizing index with
  | nil => exact rfl
  | cons h hrest ih =>
    refine (hcheck _ _ _ h).bind ?_
    rintro first _ rfl
    refine (ih (index + 1)).bind ?_
    rintro rest _ rfl
    exact rfl

/-- The check of a resource agrees on the same values. -/
theorem resourceDescriptor_agree (h : JsValue.Same a b) :
    Agree Eq (resourceDescriptor a path) (resourceDescriptor b path) := by
  refine (closedRecord_agree h _ _).bind fun m m' hm => ?_
  refine (stringValue_agree (field_same hm _) _).bind fun _ _ _ => ?_
  refine (stringValue_agree (field_same hm _) _).bind fun _ _ _ => ?_
  exact (stringValue_agree (field_same hm _) _).bind fun _ _ _ => rfl

/-- The descriptors that the same values name are equal. -/
theorem parseObjectDescriptor_agree (h : JsValue.Same a b) :
    Agree Eq (parseObjectDescriptor a path) (parseObjectDescriptor b path) := by
  refine (assertProtocolDomain_agree h).bind fun _ _ _ => ?_
  refine (closedRecord_agree h _ _).bind fun m m' hm => ?_
  refine (stringValue_agree (field_same hm _) _).bind ?_
  rintro word _ rfl
  refine Agree.rfl.bind ?_
  rintro kind _ rfl
  refine (literal_agree (field_same hm _) _).bind fun _ _ _ => ?_
  refine (stringValue_agree (field_same hm _) _).bind ?_
  rintro hash _ rfl
  exact rfl

/-- The descriptors of one kind that the same values name are equal. -/
theorem descriptorOfKind_agree (kind : ObjectKind) (h : JsValue.Same a b) :
    Agree Eq (descriptorOfKind kind a path) (descriptorOfKind kind b path) := by
  refine (parseObjectDescriptor_agree h).bind ?_
  rintro descriptor _ rfl
  exact .rfl

/-- A member of the same records is among some strings in both or in neither. -/
theorem field_mem_strings {m m' : Record JsValue} (h : Record.Same m m') (key : String)
    (strings : List JsString) :
    field m key ∈ strings.map JsValue.str ↔ field m' key ∈ strings.map JsValue.str := by
  simp only [List.mem_map, eq_comm (a := JsValue.str _), (field_same h key).eq_str_iff]

/-- The check of an actor agrees on the same values. -/
theorem actorRef_agree (h : JsValue.Same a b) :
    Agree Eq (actorRef a path) (actorRef b path) := by
  refine (closedRecord_agree h _ _).bind fun m m' hm => ?_
  have hmem := field_mem_strings hm "kind" [js "human", js "agent", js "service"]
  simp only [List.map_cons, List.map_nil] at hmem
  dsimp only
  rw [if_congr (not_congr hmem) rfl rfl]
  refine .ite (fun _ => trivial) fun _ => ?_
  exact (stringValue_agree (field_same hm _) _).bind fun _ _ _ => rfl

/-- The check of evidence agrees on the same values. -/
theorem evidenceRef_agree (h : JsValue.Same a b) :
    Agree Eq (evidenceRef a path) (evidenceRef b path) := by
  refine (closedRecord_agree h _ _).bind fun m m' hm => ?_
  refine (resourceDescriptor_agree (field_same hm _)).bind fun _ _ _ => ?_
  refine (closedRecord_agree (field_same hm _) _ _).bind fun l l' hl => ?_
  refine (stringValue_agree (field_same hl _) _).bind fun _ _ _ => ?_
  exact assertProtocolDomain_agree (field_same hl _)

/-- Arrays of the same items are both empty or neither is. -/
theorem isEmpty_congr {items items' : List JsValue} (h : List.Forall₂ JsValue.Same items items') :
    items.isEmpty = items'.isEmpty := by
  cases h <;> rfl

/-- The check of a set of evidence agrees on the same values. -/
theorem evidenceSet_agree (h : JsValue.Same a b) (requireMember : Bool) :
    Agree Eq (evidenceSet a path requireMember) (evidenceSet b path requireMember) := by
  refine (arrayValue_agree h).bind fun values values' hvalues => ?_
  dsimp only
  rw [isEmpty_congr hvalues]
  refine .ite (fun _ => trivial) fun _ => ?_
  refine (eachItem_agree evidenceRef (fun _ _ _ => evidenceRef_agree) hvalues 0).bind fun _ _ _ => ?_
  exact canonicalSet_agree hvalues

/-- The modes of the same claims are equal. -/
theorem stringClaim_agree (h : JsValue.Same a b) :
    Agree Eq (stringClaim a path) (stringClaim b path) := by
  refine (closedRecord_agree h _ _).bind fun m m' hm => ?_
  refine (stringValue_agree (field_same hm _) _).bind ?_
  rintro mode _ rfl
  refine .ite (fun _ => ?_) fun _ => ?_
  · exact (closedRecord_agree h _ _).bind fun _ _ _ => rfl
  · refine .ite (fun _ => trivial) fun _ => ?_
    refine (closedRecord_agree h _ _).bind fun r r' hr => ?_
    refine (stringValue_agree (field_same hr _) _).bind fun _ _ _ => ?_
    exact (evidenceSet_agree (field_same hr _) _).bind fun _ _ _ => rfl

/-- The check of a Proposal agrees on the same values. -/
theorem proposalPredicate_agree (h : JsValue.Same a b) :
    Agree Eq (proposalPredicate a path) (proposalPredicate b path) := by
  refine (closedRecord_agree h _ _).bind fun m m' hm => ?_
  refine (stringClaim_agree (field_same hm _)).bind fun _ _ _ => ?_
  exact (stringClaim_agree (field_same hm _)).bind fun _ _ _ => rfl

/-- The check of a policy agrees on the same values. -/
theorem decisionPolicy_agree (h : JsValue.Same a b) :
    Agree Eq (decisionPolicy a path) (decisionPolicy b path) := by
  refine (closedRecord_agree h _ _).bind fun m m' hm => ?_
  have hmode := field_same hm "mode"
  simp only [if_congr hmode.eq_str_iff rfl rfl]
  refine .ite (fun _ => ?_) fun _ => .ite (fun _ => ?_) fun _ => trivial
  · exact (closedRecord_agree h _ _).bind fun _ _ _ => rfl
  · refine (closedRecord_agree h _ _).bind fun r r' hr => ?_
    exact resourceDescriptor_agree (field_same hr _)

/-- The check of a Decision agrees on the same values. -/
theorem decisionPredicate_agree (h : JsValue.Same a b) :
    Agree Eq (decisionPredicate a path) (decisionPredicate b path) := by
  refine (closedRecord_agree h _ _).bind fun m m' hm => ?_
  refine (decisionPolicy_agree (field_same hm _)).bind fun _ _ _ => ?_
  refine (arrayValue_agree (field_same hm _)).bind fun values values' hvalues => ?_
  refine (eachItem_agree (descriptorOfKind .statement) (fun _ _ _ => descriptorOfKind_agree _) hvalues
    0).bind fun _ _ _ => ?_
  refine (canonicalSet_agree hvalues).bind fun _ _ _ => ?_
  have hmem := field_mem_strings hm "outcome" [js "accepted", js "overridden", js "rejected"]
  simp only [List.map_cons, List.map_nil] at hmem
  dsimp only
  rw [if_congr (not_congr hmem) rfl rfl]
  refine .ite (fun _ => trivial) fun _ => ?_
  refine (stringClaim_agree (field_same hm _)).bind ?_
  rintro mode _ rfl
  rw [if_congr (and_congr_left' (field_same hm "outcome").eq_str_iff) rfl rfl]
  refine .ite (fun _ => trivial) fun _ => ?_
  exact (stringValue_agree (field_same hm _) _).bind fun _ _ _ => rfl

/-- The check of a codec agrees on the same values. -/
theorem stateCodecRef_agree (h : JsValue.Same a b) :
    Agree Eq (stateCodecRef a path) (stateCodecRef b path) := by
  refine (closedRecord_agree h _ _).bind fun m m' hm => ?_
  refine (stringValue_agree (field_same hm _) _).bind fun _ _ _ => ?_
  exact (stringValue_agree (field_same hm _) _).bind fun _ _ _ => rfl

/-- The check of a driver agrees on the same values. -/
theorem mutationDriverRef_agree (h : JsValue.Same a b) :
    Agree Eq (mutationDriverRef a path) (mutationDriverRef b path) := by
  refine (closedRecord_agree h _ _).bind fun m m' hm => ?_
  refine (stringValue_agree (field_same hm _) _).bind fun _ _ _ => ?_
  refine (stringValue_agree (field_same hm _) _).bind fun _ _ _ => ?_
  exact (stringValue_agree (field_same hm _) _).bind fun _ _ _ => rfl

/-- The roles of the same inputs are equal. -/
theorem effectInput_agree (h : JsValue.Same a b) :
    Agree Eq (effectInput a path) (effectInput b path) := by
  refine (closedRecord_agree h _ _).bind fun m m' hm => ?_
  refine (stringValue_agree (field_same hm _) _).bind ?_
  rintro role _ rfl
  exact (parseObjectDescriptor_agree (field_same hm _)).bind fun _ _ _ => rfl

/-- The check of inputs agrees on the same values. -/
theorem effectInputs_agree {inputs inputs' : List JsValue}
    (h : List.Forall₂ JsValue.Same inputs inputs') (index : ℕ) (previousRole : Option JsString) :
    Agree Eq (effectInputs index previousRole inputs) (effectInputs index previousRole inputs') := by
  induction h generalizing index previousRole with
  | nil => exact rfl
  | cons h hrest ih =>
    refine (effectInput_agree h).bind ?_
    rintro role _ rfl
    cases previousRole with
    | none => exact ih _ _
    | some previous => exact .ite (fun _ => trivial) fun _ => .ite (fun _ => trivial) fun _ => ih _ _

/-! ## Whole objects -/

/-- The check of a State agrees on the same values. -/
theorem parseState_agree (h : JsValue.Same a b) :
    Agree JsValue.Same (parseState a) (parseState b) := by
  refine (assertProtocolDomain_agree h).bind fun _ _ _ => ?_
  refine (closedRecord_agree h _ _).bind fun m m' hm => ?_
  refine (literal_agree (field_same hm _) _).bind fun _ _ _ => ?_
  refine (stateCodecRef_agree (field_same hm _)).bind fun _ _ _ => ?_
  exact (assertProtocolDomain_agree (field_same hm _)).bind fun _ _ _ => h

/-- The check of a definition agrees on the same values. -/
theorem parseEffectDefinition_agree (h : JsValue.Same a b) :
    Agree JsValue.Same (parseEffectDefinition a) (parseEffectDefinition b) := by
  refine (assertProtocolDomain_agree h).bind fun _ _ _ => ?_
  refine (closedRecord_agree h _ _).bind fun m m' hm => ?_
  refine (mutationDriverRef_agree (field_same hm _)).bind fun _ _ _ => ?_
  refine (arrayValue_agree (field_same hm _)).bind fun operations operations' hoperations => ?_
  refine (eachItem_agree _ (fun _ _ _ => assertProtocolDomain_agree) hoperations 0).bind
    fun _ _ _ => ?_
  refine (arrayValue_agree (field_same hm _)).bind fun inputs inputs' hinputs => ?_
  exact (effectInputs_agree hinputs 0 none).bind fun _ _ _ => h

/-- The definitions in the same records are the same. -/
theorem definition_same {m m' : Record JsValue} (h : Record.Same m m') : JsValue.Same
    (.obj [(js "driver", field m "driver"), (js "operations", field m "operations"),
      (js "inputs", field m "inputs")])
    (.obj [(js "driver", field m' "driver"), (js "operations", field m' "operations"),
      (js "inputs", field m' "inputs")]) := by
  refine JsValue.denote_obj_eq_iff.mpr fun key => ?_
  simp only [Record.get]
  split_ifs
  · exact congrArg some (field_same h "driver")
  · exact congrArg some (field_same h "operations")
  · exact congrArg some (field_same h "inputs")
  · rfl

/-- The check of an Effect agrees on the same values. -/
theorem parseEffect_agree (h : JsValue.Same a b) :
    Agree JsValue.Same (parseEffect a) (parseEffect b) := by
  refine (assertProtocolDomain_agree h).bind fun _ _ _ => ?_
  refine (closedRecord_agree h _ _).bind fun m m' hm => ?_
  refine (literal_agree (field_same hm _) _).bind fun _ _ _ => ?_
  refine (descriptorOfKind_agree .state (field_same hm _)).bind fun _ _ _ => ?_
  refine (parseEffectDefinition_agree (definition_same hm)).bind fun _ _ _ => ?_
  exact (descriptorOfKind_agree .state (field_same hm _)).bind fun _ _ _ => h

/-- The check of a Statement agrees on the same values. -/
theorem parseStatement_agree (h : JsValue.Same a b) :
    Agree JsValue.Same (parseStatement a) (parseStatement b) := by
  refine (assertProtocolDomain_agree h).bind fun _ _ _ => ?_
  refine (closedRecord_agree h _ _).bind fun m m' hm => ?_
  refine (literal_agree (field_same hm _) _).bind fun _ _ _ => ?_
  refine (arrayValue_agree (field_same hm _)).bind fun subjects subjects' hsubjects => ?_
  dsimp only
  rw [isEmpty_congr hsubjects]
  refine .ite (fun _ => trivial) fun _ => ?_
  refine (eachItem_agree parseObjectDescriptor (fun _ _ _ => parseObjectDescriptor_agree) hsubjects 0).bind ?_
  rintro parsedSubjects _ rfl
  refine (canonicalSet_agree hsubjects).bind fun _ _ _ => ?_
  refine (actorRef_agree (field_same hm _)).bind fun _ _ _ => ?_
  refine (stringValue_agree (field_same hm _) _).bind ?_
  rintro predicateType _ rfl
  refine .ite (fun _ => ?_) fun _ => .ite (fun _ => ?_) fun _ => ?_
  · refine .ite (fun _ => trivial) fun _ => ?_
    exact (proposalPredicate_agree (field_same hm _)).bind fun _ _ _ => h
  · refine .ite (fun _ => trivial) fun _ => ?_
    exact (decisionPredicate_agree (field_same hm _)).bind fun _ _ _ => h
  · exact (assertProtocolDomain_agree (field_same hm _)).bind fun _ _ _ => h

/-- The check of a Commit agrees on the same values. -/
theorem parseCommitV2_agree (h : JsValue.Same a b) :
    Agree JsValue.Same (parseCommitV2 a) (parseCommitV2 b) := by
  refine (assertProtocolDomain_agree h).bind fun _ _ _ => ?_
  refine (closedRecord_agree h _ _).bind fun m m' hm => ?_
  refine (literal_agree (field_same hm _) _).bind fun _ _ _ => ?_
  refine (arrayValue_agree (field_same hm _)).bind fun parents parents' hparents => ?_
  refine (eachItem_agree (descriptorOfKind .commit) (fun _ _ _ => descriptorOfKind_agree _) hparents
    0).bind fun _ _ _ => ?_
  refine (descriptorOfKind_agree .statement (field_same hm _)).bind fun _ _ _ => ?_
  exact (descriptorOfKind_agree .state (field_same hm _)).bind fun _ _ _ => h

/-- The same values are both protocol objects or neither is. -/
theorem parseProtocolObject_agree (h : JsValue.Same a b) :
    Agree JsValue.Same (parseProtocolObject a) (parseProtocolObject b) := by
  refine (assertProtocolDomain_agree h).bind fun _ _ _ => ?_
  refine (closedRecord_agree h _ _).bind fun m m' hm => ?_
  simp only [if_congr (field_same hm "schema").eq_str_iff rfl rfl]
  exact .ite (fun _ => parseState_agree h) fun _ => .ite (fun _ => parseEffect_agree h) fun _ =>
    .ite (fun _ => parseStatement_agree h) fun _ => .ite (fun _ => parseCommitV2_agree h) fun _ =>
      trivial

end T3x.Transition
