import T3x.Transition.Verifiers

/-!
# Objects by their kinds

An object that passes the check of its schema passes that of its kind, names
objects of the kinds that its schema asks for, and has its collections in order.
-/

namespace T3x.Transition.Independent

open Js T3x.Transition

/-! ## Kinds -/

/-- The check of the objects of a kind. -/
def parseOfKind : ObjectKind → JsValue → Except ProtocolError JsValue
  | .state => parseState
  | .effect => parseEffect
  | .statement => parseStatement
  | .commit => parseCommitV2

/-- An object passes the check of the kind of its schema. -/
theorem parseOfKind_of_parse {value : JsValue} (kind : ObjectKind)
    (h : parseProtocolObject value = .ok value)
    (hschema : part value "schema" = .str (expectedSchema kind)) :
    parseOfKind kind value = .ok value := by
  obtain ⟨_, -, hclosed⟩ := bind_eq_ok_iff.mp h
  obtain ⟨record, hrecord, hkind⟩ := bind_eq_ok_iff.mp hclosed
  obtain ⟨rfl, -⟩ := closedRecord_eq_ok_iff.mp hrecord
  rw [part] at hschema
  rw [hschema] at hkind
  cases kind with
  | state => exact hkind
  | effect => exact hkind
  | statement => exact hkind
  | commit => exact hkind

/-- A Commit is a protocol object of its schema. -/
theorem object_of_parseCommitV2 {value : JsValue} (h : parseCommitV2 value = .ok value) :
    parseProtocolObject value = .ok value ∧ part value "schema" = .str commitV2Schema := by
  obtain ⟨_, hdomain, hclosed⟩ := bind_eq_ok_iff.mp h
  obtain ⟨record, hrecord, hrest⟩ := bind_eq_ok_iff.mp hclosed
  obtain ⟨_, hschema, -⟩ := bind_eq_ok_iff.mp hrest
  obtain ⟨rfl, -⟩ := closedRecord_eq_ok_iff.mp hrecord
  rw [literal_eq_ok_iff] at hschema
  have hfields : closedRecord (.obj record) (js "$") [js "schema"] protocolFields = .ok record :=
    closedRecord_mono hrecord (by decide) (by decide)
  refine ⟨bind_eq_ok_iff.mpr ⟨(), hdomain, bind_eq_ok_iff.mpr ⟨record, hfields, ?_⟩⟩, hschema⟩
  rw [hschema]
  exact h

/-- A descriptor of a kind is a descriptor, with the kind. -/
theorem descriptorOfKind_eq_ok {kind : ObjectKind} {value : JsValue} {path : JsString}
    {d : ObjectDescriptor} (h : descriptorOfKind kind value path = .ok d) :
    parseObjectDescriptor value path = .ok d ∧ d.kind = kind := by
  obtain ⟨d', hd', h⟩ := bind_eq_ok_iff.mp h
  obtain ⟨hkind, h⟩ := refuse_eq_ok_iff.mp h
  obtain rfl := Except.ok.inj h
  exact ⟨hd', not_not.mp hkind⟩

/-- Items that are checked in turn pass the check. -/
theorem exists_of_eachItem {T : Type} {check : JsValue → JsString → Except ProtocolError T}
    {path : JsString} {index : ℕ} {items : List JsValue} {results : List T}
    (h : eachItem check path index items = .ok results) :
    ∀ item ∈ items, ∃ place result, check item place = .ok result := by
  induction items generalizing index results with
  | nil => exact fun _ hitem => absurd hitem List.not_mem_nil
  | cons item items ih =>
    obtain ⟨result, hresult, h⟩ := bind_eq_ok_iff.mp h
    obtain ⟨rest, hrest, -⟩ := bind_eq_ok_iff.mp h
    exact List.forall_mem_cons.mpr ⟨⟨_, result, hresult⟩, ih hrest⟩

/-- A value that names an object of a kind. -/
def Names (kind : ObjectKind) (value : JsValue) : Prop :=
  ∃ path d, parseObjectDescriptor value path = .ok d ∧ d.kind = kind

/-- A descriptor of a kind names an object of the kind. -/
theorem names_of_descriptorOfKind {kind : ObjectKind} {value : JsValue} {path : JsString}
    {d : ObjectDescriptor} (h : descriptorOfKind kind value path = .ok d) : Names kind value :=
  ⟨path, d, descriptorOfKind_eq_ok h⟩

/-- An Effect starts at a State. -/
theorem names_base {effect : JsValue} (h : parseEffect effect = .ok effect) :
    Names .state (part effect "base") := by
  obtain ⟨_, -, h⟩ := bind_eq_ok_iff.mp h
  obtain ⟨record, hrecord, h⟩ := bind_eq_ok_iff.mp h
  obtain ⟨_, -, h⟩ := bind_eq_ok_iff.mp h
  obtain ⟨base, hbase, -⟩ := bind_eq_ok_iff.mp h
  obtain ⟨rfl, -⟩ := closedRecord_eq_ok_iff.mp hrecord
  exact names_of_descriptorOfKind hbase

/-- An array that is checked gives its items. -/
theorem parts_of_arrayValue {record : Record JsValue} {key : String} {path : JsString}
    {items : List JsValue} (h : arrayValue (field record key) path = .ok items) :
    parts (.obj record) key = items := by
  unfold arrayValue at h
  split at h
  · rename_i found hfound
    rw [parts, part, hfound]
    exact Except.ok.inj h
  · cases h

/-- The parents of a Commit are Commits. -/
theorem names_parents {commit : JsValue} (h : parseCommitV2 commit = .ok commit) :
    ∀ parent ∈ parts commit "parents", Names .commit parent := by
  obtain ⟨_, -, h⟩ := bind_eq_ok_iff.mp h
  obtain ⟨record, hrecord, h⟩ := bind_eq_ok_iff.mp h
  obtain ⟨_, -, h⟩ := bind_eq_ok_iff.mp h
  obtain ⟨items, hitems, h⟩ := bind_eq_ok_iff.mp h
  obtain ⟨results, hresults, -⟩ := bind_eq_ok_iff.mp h
  obtain ⟨rfl, -⟩ := closedRecord_eq_ok_iff.mp hrecord
  rw [parts_of_arrayValue hitems]
  intro parent hparent
  obtain ⟨place, d, hd⟩ := exists_of_eachItem hresults parent hparent
  exact names_of_descriptorOfKind hd

/-- What a Decision has considered are Statements. -/
theorem names_considered {decision : JsValue} (h : parseStatement decision = .ok decision)
    (htype : part decision "predicateType" = .str decisionPredicateType) :
    ∀ considered ∈ parts (part decision "predicate") "considered",
      Names .statement considered := by
  obtain ⟨_, -, h⟩ := bind_eq_ok_iff.mp h
  obtain ⟨record, hrecord, h⟩ := bind_eq_ok_iff.mp h
  obtain ⟨_, -, h⟩ := bind_eq_ok_iff.mp h
  obtain ⟨_, -, h⟩ := bind_eq_ok_iff.mp h
  obtain ⟨-, h⟩ := refuse_eq_ok_iff.mp h
  obtain ⟨_, -, h⟩ := bind_eq_ok_iff.mp h
  obtain ⟨_, -, h⟩ := bind_eq_ok_iff.mp h
  obtain ⟨_, -, h⟩ := bind_eq_ok_iff.mp h
  obtain ⟨predicateType, hpredicateType, h⟩ := bind_eq_ok_iff.mp h
  obtain ⟨rfl, -⟩ := closedRecord_eq_ok_iff.mp hrecord
  obtain rfl : decisionPredicateType = predicateType :=
    JsValue.str.inj (htype.symm.trans (stringValue_eq_ok hpredicateType).1)
  rw [if_neg (by decide), if_pos rfl] at h
  obtain ⟨-, h⟩ := refuse_eq_ok_iff.mp h
  obtain ⟨_, hpredicate, -⟩ := bind_eq_ok_iff.mp h
  obtain ⟨predicate, hclosed, h⟩ := bind_eq_ok_iff.mp hpredicate
  obtain ⟨_, -, h⟩ := bind_eq_ok_iff.mp h
  obtain ⟨items, hitems, h⟩ := bind_eq_ok_iff.mp h
  obtain ⟨results, hresults, -⟩ := bind_eq_ok_iff.mp h
  rw [part, (closedRecord_eq_ok_iff.mp hclosed).1, parts_of_arrayValue hitems]
  intro considered hconsidered
  obtain ⟨place, d, hd⟩ := exists_of_eachItem hresults considered hconsidered
  exact names_of_descriptorOfKind hd

/-! ## The order of collections -/

/-- Whether members form a canonical set does not depend on where they stand. -/
theorem canonicalSet_congr {values : List JsValue} {path : JsString} (path' : JsString)
    (h : canonicalSet path values = .ok ()) : canonicalSet path' values = .ok () := by
  induction values with
  | nil => rfl
  | cons a values ih =>
    cases values with
    | nil => rfl
    | cons b values =>
      obtain ⟨comparison, hcomparison, h⟩ := bind_eq_ok_iff.mp h
      obtain ⟨hduplicate, h⟩ := refuse_eq_ok_iff.mp h
      obtain ⟨horder, h⟩ := refuse_eq_ok_iff.mp h
      exact bind_eq_ok_iff.mpr ⟨comparison, hcomparison, refuse_eq_ok_iff.mpr
        ⟨hduplicate, refuse_eq_ok_iff.mpr ⟨horder, ih h⟩⟩⟩

/-- The evidence of a claim is a canonical set. -/
theorem evidence_of_stringClaim {record : Record JsValue} {key : String} {path mode : JsString}
    (path' : JsString) (h : stringClaim (field record key) path = .ok mode) :
    canonicalSet path' (parts (field record key) "evidence") = .ok () := by
  obtain ⟨claim, hclaim, h⟩ := bind_eq_ok_iff.mp h
  obtain ⟨word, -, h⟩ := bind_eq_ok_iff.mp h
  rw [(closedRecord_eq_ok_iff.mp hclaim).1] at h ⊢
  by_cases hword : word = js "unspecified"
  · rw [if_pos hword] at h
    obtain ⟨only, honly, -⟩ := bind_eq_ok_iff.mp h
    obtain ⟨hsame, hallowed, -⟩ := closedRecord_eq_ok_iff.mp honly
    obtain rfl := JsValue.obj.inj hsame
    have hmissing : Record.has claim (js "evidence") = false := by
      by_contra hhas
      have hmem := hallowed _ (Record.mem_keys.mpr (Bool.not_eq_false _ ▸ hhas))
      exact absurd hmem (by decide)
    rw [Record.has_eq_false] at hmissing
    have hnone : parts (.obj claim) "evidence" = [] := by
      simp [parts, part, field, hmissing]
    rw [hnone]
    rfl
  · rw [if_neg hword] at h
    obtain ⟨-, h⟩ := refuse_eq_ok_iff.mp h
    obtain ⟨members, hmembers, h⟩ := bind_eq_ok_iff.mp h
    obtain ⟨_, -, h⟩ := bind_eq_ok_iff.mp h
    obtain ⟨_, hevidence, -⟩ := bind_eq_ok_iff.mp h
    obtain rfl := JsValue.obj.inj (closedRecord_eq_ok_iff.mp hmembers).1
    obtain ⟨values, hvalues, hset⟩ := bind_eq_ok_iff.mp hevidence
    obtain ⟨-, hset⟩ := refuse_eq_ok_iff.mp hset
    obtain ⟨_, -, hset⟩ := bind_eq_ok_iff.mp hset
    rw [parts_of_arrayValue hvalues]
    exact canonicalSet_congr path' hset

/-- The role of an input that is checked. -/
theorem role_of_effectInput {input : JsValue} {path role : JsString}
    (h : effectInput input path = .ok role) : part input "role" = .str role := by
  obtain ⟨record, hrecord, h⟩ := bind_eq_ok_iff.mp h
  obtain ⟨found, hfound, h⟩ := bind_eq_ok_iff.mp h
  obtain ⟨_, -, h⟩ := bind_eq_ok_iff.mp h
  obtain rfl := Except.ok.inj h
  rw [(closedRecord_eq_ok_iff.mp hrecord).1]
  exact (stringValue_eq_ok hfound).1

/-- The roles of inputs that are checked ascend, from the role before them on. -/
theorem isChain_of_effectInputs {index : ℕ} {previousRole : Option JsString}
    {inputs : List JsValue} (h : effectInputs index previousRole inputs = .ok ()) :
    (previousRole.toList ++ inputs.map fun member =>
      match part member "role" with
      | .str role => role
      | _ => []).IsChain fun a b => compareCodeUnits a b < 0 := by
  induction inputs generalizing index previousRole with
  | nil => cases previousRole <;> simp
  | cons input inputs ih =>
    obtain ⟨role, hrole, h⟩ := bind_eq_ok_iff.mp h
    simp only [List.map_cons, role_of_effectInput hrole]
    cases previousRole with
    | none => exact ih h
    | some previous =>
      obtain ⟨-, h⟩ := refuse_eq_ok_iff.mp h
      obtain ⟨horder, h⟩ := refuse_eq_ok_iff.mp h
      exact List.isChain_cons_cons.mpr ⟨lt_of_not_ge horder, ih h⟩

/-- The roles of the inputs of an Effect definition ascend. -/
theorem isChain_of_parseEffectDefinition {definition : JsValue}
    (h : parseEffectDefinition definition = .ok definition) :
    (inputRoles definition).IsChain fun a b => compareCodeUnits a b < 0 := by
  obtain ⟨_, -, h⟩ := bind_eq_ok_iff.mp h
  obtain ⟨record, hrecord, h⟩ := bind_eq_ok_iff.mp h
  obtain ⟨_, -, h⟩ := bind_eq_ok_iff.mp h
  obtain ⟨_, -, h⟩ := bind_eq_ok_iff.mp h
  obtain ⟨_, -, h⟩ := bind_eq_ok_iff.mp h
  obtain ⟨inputs, hinputs, h⟩ := bind_eq_ok_iff.mp h
  obtain ⟨_, hroles, -⟩ := bind_eq_ok_iff.mp h
  obtain ⟨rfl, -⟩ := closedRecord_eq_ok_iff.mp hrecord
  have hparts : parts (.obj record) "inputs" = inputs := parts_of_arrayValue hinputs
  rw [inputRoles, hparts]
  exact isChain_of_effectInputs hroles

/-- The roles of the inputs of an Effect ascend. -/
theorem isChain_of_parseEffect {effect : JsValue} (h : parseEffect effect = .ok effect) :
    (inputRoles effect).IsChain fun a b => compareCodeUnits a b < 0 := by
  obtain ⟨_, -, h⟩ := bind_eq_ok_iff.mp h
  obtain ⟨record, hrecord, h⟩ := bind_eq_ok_iff.mp h
  obtain ⟨_, -, h⟩ := bind_eq_ok_iff.mp h
  obtain ⟨_, -, h⟩ := bind_eq_ok_iff.mp h
  obtain ⟨definition, hdefinition, -⟩ := bind_eq_ok_iff.mp h
  obtain ⟨rfl, -⟩ := closedRecord_eq_ok_iff.mp hrecord
  obtain rfl := parseEffectDefinition_returns _ _ hdefinition
  -- the definition has the inputs of the Effect
  have hroles : inputRoles (.obj record) = inputRoles (.obj [(js "driver", field record "driver"),
      (js "operations", field record "operations"), (js "inputs", field record "inputs")]) := rfl
  rw [hroles]
  exact isChain_of_parseEffectDefinition hdefinition

/-- An object has a schema, and passes the check of its kind. -/
theorem schema_of_parse {value : JsValue} (h : parseProtocolObject value = .ok value) :
    ∃ kind, part value "schema" = .str (expectedSchema kind) ∧
      parseOfKind kind value = .ok value := by
  obtain ⟨kind, hkind⟩ := kindForSchema_of_parse h
  obtain ⟨hschema, -⟩ := kindForSchema_eq_some_iff.mp hkind
  exact ⟨kind, hschema, parseOfKind_of_parse kind h hschema⟩

/-- The collections of a Statement are in order. -/
theorem inOrder_of_parseStatement {value : JsValue} (h : parseStatement value = .ok value)
    (hschema : part value "schema" = .str statementSchema) : InOrder value := by
  obtain ⟨_, -, h⟩ := bind_eq_ok_iff.mp h
  obtain ⟨record, hrecord, h⟩ := bind_eq_ok_iff.mp h
  obtain ⟨_, -, h⟩ := bind_eq_ok_iff.mp h
  obtain ⟨subjects, hsubjects, h⟩ := bind_eq_ok_iff.mp h
  obtain ⟨-, h⟩ := refuse_eq_ok_iff.mp h
  obtain ⟨_, -, h⟩ := bind_eq_ok_iff.mp h
  obtain ⟨_, hset, h⟩ := bind_eq_ok_iff.mp h
  obtain ⟨_, -, h⟩ := bind_eq_ok_iff.mp h
  obtain ⟨predicateType, hpredicateType, h⟩ := bind_eq_ok_iff.mp h
  obtain ⟨rfl, -⟩ := closedRecord_eq_ok_iff.mp hrecord
  rw [← parts_of_arrayValue hsubjects] at hset
  have htype : part (.obj record) "predicateType" = .str predicateType :=
    (stringValue_eq_ok hpredicateType).1
  refine ⟨fun heffect => ?_, fun _ => hset, fun _ hproposal claim hclaim => ?_,
    fun _ hdecision => ?_⟩
  · exact absurd (hschema.symm.trans heffect) (by decide)
  · obtain rfl := JsValue.str.inj (htype.symm.trans hproposal)
    rw [if_pos rfl] at h
    obtain ⟨-, h⟩ := refuse_eq_ok_iff.mp h
    obtain ⟨_, hpredicate, -⟩ := bind_eq_ok_iff.mp h
    obtain ⟨predicate, hclosed, h⟩ := bind_eq_ok_iff.mp hpredicate
    obtain ⟨_, hintent, h⟩ := bind_eq_ok_iff.mp h
    obtain ⟨_, hrationale, -⟩ := bind_eq_ok_iff.mp h
    have hmembers : part (.obj record) "predicate" = .obj predicate :=
      (closedRecord_eq_ok_iff.mp hclosed).1
    rw [hmembers]
    rcases List.mem_cons.mp hclaim with rfl | hclaim
    · exact evidence_of_stringClaim _ hintent
    · obtain rfl := List.mem_singleton.mp hclaim
      exact evidence_of_stringClaim _ hrationale
  · obtain rfl := JsValue.str.inj (htype.symm.trans hdecision)
    rw [if_neg (by decide), if_pos rfl] at h
    obtain ⟨-, h⟩ := refuse_eq_ok_iff.mp h
    obtain ⟨_, hpredicate, -⟩ := bind_eq_ok_iff.mp h
    obtain ⟨predicate, hclosed, h⟩ := bind_eq_ok_iff.mp hpredicate
    obtain ⟨_, -, h⟩ := bind_eq_ok_iff.mp h
    obtain ⟨items, hitems, h⟩ := bind_eq_ok_iff.mp h
    obtain ⟨_, -, h⟩ := bind_eq_ok_iff.mp h
    obtain ⟨_, hconsidered, h⟩ := bind_eq_ok_iff.mp h
    obtain ⟨-, h⟩ := refuse_eq_ok_iff.mp h
    obtain ⟨_, hrationale, -⟩ := bind_eq_ok_iff.mp h
    have hmembers : part (.obj record) "predicate" = .obj predicate :=
      (closedRecord_eq_ok_iff.mp hclosed).1
    rw [hmembers, parts_of_arrayValue hitems]
    exact ⟨canonicalSet_congr _ hconsidered, evidence_of_stringClaim _ hrationale⟩

/-- The collections of an object are in order. -/
theorem inOrder_of_parse {value : JsValue} (h : parseProtocolObject value = .ok value) :
    InOrder value := by
  obtain ⟨kind, hschema, hparse⟩ := schema_of_parse h
  have hother : ∀ schema, schema ≠ expectedSchema kind → part value "schema" ≠ .str schema :=
    fun schema hne heq => hne (JsValue.str.inj (heq.symm.trans hschema))
  have hneither : effectSchema ≠ expectedSchema kind → statementSchema ≠ expectedSchema kind →
      InOrder value := fun heffect hstatement =>
    ⟨fun hs => absurd hs (hother _ heffect), fun hs => absurd hs (hother _ hstatement),
      fun hs => absurd hs (hother _ hstatement), fun hs => absurd hs (hother _ hstatement)⟩
  cases kind with
  | state => exact hneither (by decide) (by decide)
  | commit => exact hneither (by decide) (by decide)
  | statement => exact inOrder_of_parseStatement hparse hschema
  | effect =>
    exact ⟨fun _ => isChain_of_parseEffect hparse, fun hs => absurd hs (hother _ (by decide)),
      fun hs => absurd hs (hother _ (by decide)), fun hs => absurd hs (hother _ (by decide))⟩

end T3x.Transition.Independent
