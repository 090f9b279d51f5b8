import T3x.Transition.Kinds

/-!
# What the verifiers ask of a commit

A commit is intact when the objects on the way from it resolve and meet. This is
what both verifiers ask, and one of them asks more: that the objects which the
Effect names as its inputs resolve too.
-/

namespace T3x.Transition.Independent

open Js T3x.Transition

/-! ## Intact commits -/

section Intact

variable (sha256 : List UInt8 → JsString) (store : Record (List UInt8))

/-- What a request resolves to in the store. -/
def Resolves (requested value : JsValue) : Prop :=
  resolveProtocolObject sha256 (getObject store) requested = .ok value

/-- What both verifiers ask of a commit and the objects on the way from it. -/
structure Intact (commit decision proposal effect base : JsValue) : Prop where
  /-- The commit is a Commit. -/
  isCommit : parseCommitV2 commit = .ok commit
  /-- It names the Decision. -/
  decisionFound : Resolves sha256 store (part commit "decision") decision
  /-- The Decision is one. -/
  isDecision : part decision "schema" = .str statementSchema ∧
    part decision "predicateType" = .str decisionPredicateType
  /-- It has not rejected. -/
  accepted : part (part decision "predicate") "outcome" ≠ .str (js "rejected")
  /-- It names the Proposal. -/
  proposalFound : Resolves sha256 store ((parts decision "subjects").headD .null) proposal
  /-- The Proposal is one. -/
  isProposal : part proposal "schema" = .str statementSchema ∧
    part proposal "predicateType" = .str proposalPredicateType
  /-- It names the Effect. -/
  effectFound : Resolves sha256 store ((parts proposal "subjects").headD .null) effect
  /-- The Effect is one. -/
  isEffect : part effect "schema" = .str effectSchema
  /-- The commit and the Effect have one Result. -/
  results : descriptorsEqual (part commit "result") (part effect "result") = true
  /-- The Effect names the State where it starts. -/
  baseFound : Resolves sha256 store (part effect "base") base
  /-- The Result resolves. -/
  resultFound : ∃ result, Resolves sha256 store (part commit "result") result
  /-- What has been considered resolves, and so do its subjects. -/
  consideredFound : ∀ considered ∈ parts (part decision "predicate") "considered", ∃ statement,
    Resolves sha256 store considered statement ∧ ∀ subject ∈ parts statement "subjects",
      ∃ object, Resolves sha256 store subject object
  /-- The parents resolve, and the Effect starts where they ended. -/
  parentsMeet : ∃ parents, List.Forall₂ (Resolves sha256 store) (parts commit "parents") parents ∧
    verifyParents effect base parents = .ok ()

end Intact

section Accepts

variable {sha256 : List UInt8 → JsString} {store : Record (List UInt8)}

/-- What resolves is an object. -/
theorem object_of_resolves {requested value : JsValue} (h : Resolves sha256 store requested value) :
    parseProtocolObject value = .ok value := by
  obtain ⟨_, _, -, -, hstored, -⟩ := resolveProtocolObject_eq_ok_iff.mp h
  exact (canonicalProtocolObjectBytes_eq_ok_iff.mp hstored.2).1

/-- What resolves has the kind that is named. -/
theorem parseOfKind_of_resolves {kind : ObjectKind} {requested value : JsValue}
    (h : Resolves sha256 store requested value) (hnames : Names kind requested) :
    parseOfKind kind value = .ok value := by
  obtain ⟨d, bytes, hd, -, hstored, -⟩ := resolveProtocolObject_eq_ok_iff.mp h
  obtain ⟨path, d', hd', rfl⟩ := hnames
  obtain rfl := Except.ok.inj ((parseDescriptor_eq_ok_iff.mpr hd).symm.trans
    (parseDescriptor_eq_ok_iff.mpr hd'))
  obtain ⟨_, -, hkind, -⟩ := describeProtocolObject_eq_ok_iff.mp hstored.1
  obtain ⟨hschema, hkind⟩ := kindForSchema_eq_some_iff.mp hkind
  rw [schemaToKind_eq_some_iff.mp hkind] at hschema
  exact parseOfKind_of_parse _ (object_of_resolves h) hschema

/-- The check of a Proposal is that of a Statement and of its type. -/
theorem parseProposalStatement_eq_ok_iff {value result : JsValue} :
    parseProposalStatement value = .ok result ↔ result = value ∧ parseStatement value = .ok value ∧
      part value "predicateType" = .str proposalPredicateType := by
  constructor
  · intro h
    obtain ⟨parsed, hparsed, h⟩ := bind_eq_ok_iff.mp h
    obtain ⟨htype, h⟩ := refuse_eq_ok_iff.mp h
    obtain rfl := Except.ok.inj h
    obtain rfl := parseStatement_returns value parsed hparsed
    exact ⟨rfl, hparsed, not_not.mp htype⟩
  · rintro ⟨rfl, hparsed, htype⟩
    exact bind_eq_ok_iff.mpr ⟨_, hparsed, refuse_eq_ok_iff.mpr ⟨not_not.mpr htype, rfl⟩⟩

/-- The check of a Decision is that of a Statement and of its type. -/
theorem parseDecisionStatement_eq_ok_iff {value result : JsValue} :
    parseDecisionStatement value = .ok result ↔ result = value ∧ parseStatement value = .ok value ∧
      part value "predicateType" = .str decisionPredicateType := by
  constructor
  · intro h
    obtain ⟨parsed, hparsed, h⟩ := bind_eq_ok_iff.mp h
    obtain ⟨htype, h⟩ := refuse_eq_ok_iff.mp h
    obtain rfl := Except.ok.inj h
    obtain rfl := parseStatement_returns value parsed hparsed
    exact ⟨rfl, hparsed, not_not.mp htype⟩
  · rintro ⟨rfl, hparsed, htype⟩
    exact bind_eq_ok_iff.mpr ⟨_, hparsed, refuse_eq_ok_iff.mpr ⟨not_not.mpr htype, rfl⟩⟩

/-- The subjects of a Statement that has been considered resolve in the source when they do. -/
theorem verifyStatementSubjects_eq_ok_iff {statement : JsValue}
    (h : parseStatement statement = .ok statement) :
    verifyStatementSubjects sha256 (getObject store) statement = .ok () ↔
      ∀ subject ∈ parts statement "subjects", ∃ object, Resolves sha256 store subject object := by
  refine Iff.trans ?_
    (exists_mapM_iff (f := resolveProtocolObject sha256 (getObject store)))
  constructor
  · intro hverify
    obtain ⟨parsed, hparsed, hresolve⟩ := bind_eq_ok_iff.mp hverify
    obtain rfl := parseStatement_returns statement parsed hparsed
    obtain ⟨objects, hobjects, -⟩ := bind_eq_ok_iff.mp hresolve
    exact ⟨objects, hobjects⟩
  · rintro ⟨objects, hobjects⟩
    exact bind_eq_ok_iff.mpr ⟨statement, h, bind_eq_ok_iff.mpr ⟨objects, hobjects, rfl⟩⟩

/-- The parents of a Commit are read as Commits exactly when they resolve. -/
theorem mapM_parents_eq_ok_iff {commit : JsValue} (h : parseCommitV2 commit = .ok commit)
    {parents : List JsValue} : ((parts commit "parents").mapM fun descriptor => do
        parseCommitV2 (← resolveProtocolObject sha256 (getObject store) descriptor)) = .ok parents ↔
      List.Forall₂ (Resolves sha256 store) (parts commit "parents") parents := by
  rw [mapM_eq_ok_iff]
  have hnames := names_parents h
  generalize parts commit "parents" = requested at hnames
  constructor
  · intro hread
    refine hread.imp fun descriptor parent hparent => ?_
    obtain ⟨found, hfound, hparent⟩ := bind_eq_ok_iff.mp hparent
    obtain rfl := parseCommitV2_returns found parent hparent
    exact hfound
  · intro hresolves
    induction hresolves with
    | nil => exact .nil
    | cons hfirst _ ih =>
      rw [List.forall_mem_cons] at hnames
      exact .cons (bind_eq_ok_iff.mpr ⟨_, hfirst, parseOfKind_of_resolves hfirst hnames.1⟩)
        (ih hnames.2)

/-- The source accepts a commit exactly when it is intact and the inputs of its Effect resolve. -/
theorem verifyCommitIntegrity_eq_ok_iff {commit : JsValue} :
    (∃ verified, verifyCommitIntegrity sha256 (getObject store) commit = .ok verified) ↔
      ∃ decision proposal effect base, Intact sha256 store commit decision proposal effect base ∧
        ∀ input ∈ parts effect "inputs", ∃ object,
          Resolves sha256 store (part input "object") object := by
  constructor
  · rintro ⟨verified, h⟩
    obtain ⟨parsed, hparsed, h⟩ := bind_eq_ok_iff.mp h
    obtain ⟨decision, hdecision, h⟩ := bind_eq_ok_iff.mp h
    obtain ⟨hisDecision, h⟩ := refuse_eq_ok_iff.mp h
    obtain ⟨decision', hdecision', h⟩ := bind_eq_ok_iff.mp h
    obtain ⟨hrejected, h⟩ := refuse_eq_ok_iff.mp h
    obtain ⟨proposal, hproposal, h⟩ := bind_eq_ok_iff.mp h
    obtain ⟨hisProposal, h⟩ := refuse_eq_ok_iff.mp h
    obtain ⟨proposal', hproposal', h⟩ := bind_eq_ok_iff.mp h
    obtain ⟨effect, heffect, h⟩ := bind_eq_ok_iff.mp h
    obtain ⟨hisEffect, h⟩ := refuse_eq_ok_iff.mp h
    obtain ⟨effect', heffect', h⟩ := bind_eq_ok_iff.mp h
    obtain ⟨hresults, h⟩ := refuse_eq_ok_iff.mp h
    obtain ⟨base, hbase, h⟩ := bind_eq_ok_iff.mp h
    obtain ⟨base', hbase', h⟩ := bind_eq_ok_iff.mp h
    obtain ⟨result, hresult, h⟩ := bind_eq_ok_iff.mp h
    obtain ⟨inputs, hinputs, h⟩ := bind_eq_ok_iff.mp h
    obtain ⟨considered, hconsidered, h⟩ := bind_eq_ok_iff.mp h
    obtain ⟨parents, hparents, h⟩ := bind_eq_ok_iff.mp h
    obtain ⟨_, hverify, -⟩ := bind_eq_ok_iff.mp h
    -- The checks return what they check.
    obtain rfl := parseCommitV2_returns _ _ hparsed
    obtain ⟨rfl, -⟩ := parseDecisionStatement_eq_ok_iff.mp hdecision'
    obtain ⟨rfl, -⟩ := parseProposalStatement_eq_ok_iff.mp hproposal'
    obtain rfl := parseEffect_returns _ _ heffect'
    obtain rfl := parseState_returns _ _ hbase'
    rw [not_or, not_not, not_not] at hisDecision hisProposal
    rw [not_not] at hisEffect
    rw [Bool.not_eq_false] at hresults
    refine ⟨_, _, _, _, ⟨hparsed, hdecision, hisDecision, hrejected, hproposal, hisProposal,
      heffect, hisEffect, hresults, hbase, ⟨_, hresult⟩, ?_,
      ⟨_, (mapM_parents_eq_ok_iff hparsed).mp hparents, hverify⟩⟩, exists_mapM_iff.mp ⟨_, hinputs⟩⟩
    intro request hrequest
    obtain ⟨_, hread⟩ := exists_mapM_iff.mp ⟨_, hconsidered⟩ request hrequest
    obtain ⟨statement, hstatement, hread⟩ := bind_eq_ok_iff.mp hread
    obtain ⟨statement', hparsed', hsubjects⟩ := bind_eq_ok_iff.mp hread
    obtain rfl := parseStatement_returns _ _ hparsed'
    exact ⟨_, hstatement, (verifyStatementSubjects_eq_ok_iff hparsed').mp hsubjects⟩
  · rintro ⟨decision, proposal, effect, base, h, hinputs⟩
    have hisDecision := parseOfKind_of_parse .statement
      (object_of_resolves h.decisionFound) h.isDecision.1
    have hisProposal := parseOfKind_of_parse .statement
      (object_of_resolves h.proposalFound) h.isProposal.1
    have hisEffect := parseOfKind_of_parse .effect
      (object_of_resolves h.effectFound) h.isEffect
    have hisBase := parseOfKind_of_resolves h.baseFound (names_base hisEffect)
    obtain ⟨result, hresult⟩ := h.resultFound
    obtain ⟨inputs, hinputs⟩ := exists_mapM_iff.mpr hinputs
    obtain ⟨parents, hparents, hmeet⟩ := h.parentsMeet
    obtain ⟨considered, hconsidered⟩ : ∃ considered,
        ((parts (part decision "predicate") "considered").mapM fun considered => do
          let consideredObject ← resolveProtocolObject sha256 (getObject store) considered
          verifyStatementSubjects sha256 (getObject store) (← parseStatement consideredObject)) =
          .ok considered := by
      refine exists_mapM_iff.mpr fun request hrequest => ?_
      obtain ⟨statement, hstatement, hsubjects⟩ := h.consideredFound request hrequest
      have hparsed := parseOfKind_of_resolves hstatement
        (names_considered hisDecision h.isDecision.2 request hrequest)
      exact ⟨(), bind_eq_ok_iff.mpr ⟨statement, hstatement, bind_eq_ok_iff.mpr
        ⟨statement, hparsed, (verifyStatementSubjects_eq_ok_iff hparsed).mpr hsubjects⟩⟩⟩
    refine ⟨⟨commit, decision, proposal, effect, parents⟩, ?_⟩
    refine bind_eq_ok_iff.mpr ⟨commit, h.isCommit, ?_⟩
    refine bind_eq_ok_iff.mpr ⟨decision, h.decisionFound, ?_⟩
    refine refuse_eq_ok_iff.mpr ⟨by simp [h.isDecision], bind_eq_ok_iff.mpr ⟨decision,
      parseDecisionStatement_eq_ok_iff.mpr ⟨rfl, hisDecision, h.isDecision.2⟩, ?_⟩⟩
    refine refuse_eq_ok_iff.mpr ⟨h.accepted, bind_eq_ok_iff.mpr ⟨proposal, h.proposalFound, ?_⟩⟩
    refine refuse_eq_ok_iff.mpr ⟨by simp [h.isProposal], bind_eq_ok_iff.mpr ⟨proposal,
      parseProposalStatement_eq_ok_iff.mpr ⟨rfl, hisProposal, h.isProposal.2⟩, ?_⟩⟩
    refine bind_eq_ok_iff.mpr ⟨effect, h.effectFound, ?_⟩
    refine refuse_eq_ok_iff.mpr ⟨not_not.mpr h.isEffect, bind_eq_ok_iff.mpr ⟨effect, hisEffect, ?_⟩⟩
    refine refuse_eq_ok_iff.mpr ⟨by simp [h.results], ?_⟩
    refine bind_eq_ok_iff.mpr ⟨base, h.baseFound, bind_eq_ok_iff.mpr ⟨base, hisBase, ?_⟩⟩
    refine bind_eq_ok_iff.mpr ⟨result, hresult, bind_eq_ok_iff.mpr ⟨inputs, hinputs, ?_⟩⟩
    refine bind_eq_ok_iff.mpr ⟨considered, hconsidered, bind_eq_ok_iff.mpr ⟨parents,
      (mapM_parents_eq_ok_iff h.isCommit).mpr hparents, bind_eq_ok_iff.mpr ⟨(), hmeet, rfl⟩⟩⟩

/-- Both verifiers compare descriptors in one way. -/
theorem sameDescriptor_eq (left right : JsValue) :
    sameDescriptor left right = descriptorsEqual left right := by
  simp [sameDescriptor, descriptorsEqual]

/-- Both verifiers ask the same of the parents. -/
theorem checkParents_eq_ok_iff {effect base : JsValue} {parents : List JsValue} :
    checkParents effect base parents = .ok () ↔ verifyParents effect base parents = .ok () := by
  unfold checkParents verifyParents
  simp only [sameDescriptor_eq, List.any_map, Function.comp_def]
  constructor
  · intro h
    obtain ⟨hgenesis, h⟩ := refuse_eq_ok_iff.mp h
    obtain ⟨hfirst, h⟩ := refuse_eq_ok_iff.mp h
    obtain ⟨hmerged, -⟩ := throw_else_eq_ok_iff.mp h
    exact refuse_eq_ok_iff.mpr ⟨hgenesis, refuse_eq_ok_iff.mpr ⟨hfirst,
      throw_else_eq_ok_iff.mpr ⟨hmerged, rfl⟩⟩⟩
  · intro h
    obtain ⟨hgenesis, h⟩ := refuse_eq_ok_iff.mp h
    obtain ⟨hfirst, h⟩ := refuse_eq_ok_iff.mp h
    obtain ⟨hmerged, -⟩ := throw_else_eq_ok_iff.mp h
    exact refuse_eq_ok_iff.mpr ⟨hgenesis, refuse_eq_ok_iff.mpr ⟨hfirst,
      throw_else_eq_ok_iff.mpr ⟨hmerged, rfl⟩⟩⟩

variable {dumps : JsValue → Except JsString (List UInt8)}
  {schemaError : JsValue → Option JsString}

/-- The independent verifier accepts a commit exactly when it is intact. -/
theorem verifyCommit_eq_ok_iff (hpackages : PackagesAgree dumps schemaError) {commit : JsValue} :
    verifyCommit dumps schemaError sha256 store commit = .ok () ↔
      ∃ decision proposal effect base,
        Intact sha256 store commit decision proposal effect base := by
  have hresolve : ∀ requested value, resolve dumps schemaError sha256 store requested = .ok value ↔
      Resolves sha256 store requested value := fun _ _ => resolve_eq_ok_iff hpackages
  constructor
  · intro hverify
    obtain ⟨parsed, hparsed, h⟩ := bind_eq_ok_iff.mp hverify
    obtain ⟨hschema, h⟩ := refuse_eq_ok_iff.mp h
    obtain ⟨decision, hdecision, h⟩ := bind_eq_ok_iff.mp h
    obtain ⟨hisDecision, h⟩ := refuse_eq_ok_iff.mp h
    obtain ⟨hrejected, h⟩ := refuse_eq_ok_iff.mp h
    obtain ⟨proposal, hproposal, h⟩ := bind_eq_ok_iff.mp h
    obtain ⟨hisProposal, h⟩ := refuse_eq_ok_iff.mp h
    obtain ⟨effect, heffect, h⟩ := bind_eq_ok_iff.mp h
    obtain ⟨hisEffect, h⟩ := refuse_eq_ok_iff.mp h
    obtain ⟨hresults, h⟩ := refuse_eq_ok_iff.mp h
    obtain ⟨base, hbase, h⟩ := bind_eq_ok_iff.mp h
    obtain ⟨result, hresult, h⟩ := bind_eq_ok_iff.mp h
    obtain ⟨considered, hconsidered, h⟩ := bind_eq_ok_iff.mp h
    obtain ⟨parents, hparents, hmeet⟩ := bind_eq_ok_iff.mp h
    obtain ⟨rfl, hparse⟩ := (validateObject_eq_ok_iff hpackages).mp hparsed
    rw [not_or, not_not, not_not] at hisDecision hisProposal
    rw [not_not] at hschema hisEffect
    rw [Bool.not_eq_false, sameDescriptor_eq] at hresults
    simp only [hresolve] at hdecision hproposal heffect hbase hresult
    refine ⟨decision, proposal, effect, base, parseOfKind_of_parse .commit hparse hschema,
      hdecision, hisDecision, hrejected, hproposal, hisProposal, heffect, hisEffect, hresults,
      hbase, ⟨result, hresult⟩, ?_, parents, ?_, checkParents_eq_ok_iff.mp hmeet⟩
    · intro request hrequest
      obtain ⟨objects, hread⟩ := exists_mapM_iff.mp ⟨considered, hconsidered⟩ request hrequest
      obtain ⟨statement, hstatement, hread⟩ := bind_eq_ok_iff.mp hread
      have hsubjects := exists_mapM_iff.mp ⟨objects, hread⟩
      simp only [hresolve] at hstatement hsubjects
      exact ⟨statement, hstatement, hsubjects⟩
    · exact (mapM_eq_ok_iff.mp hparents).imp fun _ _ => (hresolve _ _).mp
  · rintro ⟨decision, proposal, effect, base, h⟩
    obtain ⟨hparse, hschema⟩ := object_of_parseCommitV2 h.isCommit
    obtain ⟨result, hresult⟩ := h.resultFound
    obtain ⟨parents, hparents, hmeet⟩ := h.parentsMeet
    obtain ⟨considered, hconsidered⟩ : ∃ considered,
        ((parts (part decision "predicate") "considered").mapM fun considered => do
          let statement ← resolve dumps schemaError sha256 store considered
          (parts statement "subjects").mapM (resolve dumps schemaError sha256 store)) =
          .ok considered := by
      refine exists_mapM_iff.mpr fun request hrequest => ?_
      obtain ⟨statement, hstatement, hsubjects⟩ := h.consideredFound request hrequest
      simp only [← hresolve] at hstatement hsubjects
      exact exists_bind hstatement (exists_mapM_iff.mpr hsubjects)
    refine bind_eq_ok_iff.mpr ⟨commit, (validateObject_eq_ok_iff hpackages).mpr ⟨rfl, hparse⟩, ?_⟩
    refine refuse_eq_ok_iff.mpr ⟨not_not.mpr hschema, ?_⟩
    refine bind_eq_ok_iff.mpr ⟨decision, (hresolve _ _).mpr h.decisionFound, ?_⟩
    refine refuse_eq_ok_iff.mpr ⟨by simp [h.isDecision], refuse_eq_ok_iff.mpr ⟨h.accepted, ?_⟩⟩
    refine bind_eq_ok_iff.mpr ⟨proposal, (hresolve _ _).mpr h.proposalFound, ?_⟩
    refine refuse_eq_ok_iff.mpr ⟨by simp [h.isProposal], ?_⟩
    refine bind_eq_ok_iff.mpr ⟨effect, (hresolve _ _).mpr h.effectFound, ?_⟩
    refine refuse_eq_ok_iff.mpr ⟨not_not.mpr h.isEffect, refuse_eq_ok_iff.mpr
      ⟨by simp [sameDescriptor_eq, h.results], ?_⟩⟩
    refine bind_eq_ok_iff.mpr ⟨base, (hresolve _ _).mpr h.baseFound, ?_⟩
    refine bind_eq_ok_iff.mpr ⟨result, (hresolve _ _).mpr hresult, ?_⟩
    refine bind_eq_ok_iff.mpr ⟨considered, hconsidered, bind_eq_ok_iff.mpr ⟨parents, ?_,
      checkParents_eq_ok_iff.mpr hmeet⟩⟩
    exact mapM_eq_ok_iff.mpr (hparents.imp fun _ _ => (hresolve _ _).mpr)

/-- The objects on the way from a commit are determined by it. -/
theorem Intact.unique {commit decision decision' proposal proposal' effect effect' base base' :
    JsValue} (h : Intact sha256 store commit decision proposal effect base)
    (h' : Intact sha256 store commit decision' proposal' effect' base') : effect = effect' := by
  obtain rfl := Except.ok.inj (h.decisionFound.symm.trans h'.decisionFound)
  obtain rfl := Except.ok.inj (h.proposalFound.symm.trans h'.proposalFound)
  exact Except.ok.inj (h.effectFound.symm.trans h'.effectFound)

/-- The verifiers agree on a commit in a store exactly when the inputs of its Effect resolve or
the commit is not intact anyway. -/
theorem verifiers_agree_iff (hpackages : PackagesAgree dumps schemaError) (sha256 : List UInt8 →
    JsString) (store : Record (List UInt8)) (commit : JsValue) :
    (verifyCommit dumps schemaError sha256 store commit = .ok () ↔
      ∃ verified, verifyCommitIntegrity sha256 (getObject store) commit = .ok verified) ↔
    ∀ decision proposal effect base, Intact sha256 store commit decision proposal effect base →
      ∀ input ∈ parts effect "inputs", ∃ object,
        Resolves sha256 store (part input "object") object := by
  rw [verifyCommit_eq_ok_iff hpackages, verifyCommitIntegrity_eq_ok_iff]
  constructor
  · intro hagree decision proposal effect base h
    obtain ⟨decision', proposal', effect', base', h', hinputs⟩ :=
      hagree.mp ⟨decision, proposal, effect, base, h⟩
    rwa [h.unique h']
  · intro hinputs
    constructor
    · rintro ⟨decision, proposal, effect, base, h⟩
      exact ⟨decision, proposal, effect, base, h, hinputs decision proposal effect base h⟩
    · rintro ⟨decision, proposal, effect, base, h, -⟩
      exact ⟨decision, proposal, effect, base, h⟩

end Accepts

/-! ## A commit that only one verifier accepts -/

/-- Canonical bytes, with an exception in place of an error. -/
def protocolDumps (value : JsValue) : Except JsString (List UInt8) :=
  match canonicalProtocolBytes value with
  | .ok bytes => .ok bytes
  | .error e => .error e.message

/-- The first error of a value that is no object. -/
def protocolSchemaError (value : JsValue) : Option JsString :=
  match parseProtocolObject value with
  | .ok _ => none
  | .error e => some e.message

/-- The functions of the protocol itself have its canonical form and its grammar. -/
theorem packagesAgree_protocol : PackagesAgree protocolDumps protocolSchemaError where
  canonical value bytes := by
    unfold protocolDumps
    split <;> simp [*]
  grammar value := by
    unfold protocolSchemaError
    constructor
    · intro h
      rw [h]
      exact ⟨rfl, inOrder_of_parse h⟩
    · rintro ⟨h, -⟩
      split at h
      · rename_i parsed hparsed
        obtain rfl := parseProtocolObject_returns value parsed hparsed
        exact hparsed
      · cases h

/-- Members in order stay as they are when they are sorted. -/
def ascendingFirst (m : Record JsString) : Record JsString :=
  if (Record.entries m).Pairwise fun a b => compareCodeUnits a.1 b.1 ≤ 0 then Record.entries m
  else Record.sorted compareCodeUnits m

/-- Sorting looks first whether the members are in order. -/
theorem sorted_eq_ascendingFirst (m : Record JsString) :
    Record.sorted compareCodeUnits m = ascendingFirst m := by
  unfold ascendingFirst
  split_ifs with h
  · rw [Record.sorted, sortBy]
    exact List.mergeSort_of_pairwise (h.imp fun h => decide_eq_true h)
  · rfl

/-- The canonical bytes of a value without lone surrogates. -/
def objectBytes (value : JsValue) : List UInt8 := encodeUtf8 (value.encode ascendingFirst)

/-- A value without lone surrogates has canonical bytes. -/
theorem canonicalProtocolBytes_eq {value : JsValue} (h : value.isUnicode = true) :
    canonicalProtocolBytes value = .ok (objectBytes value) := by
  obtain ⟨text, htext⟩ := exists_canonicalJson_iff.mpr h
  have hsorted : (Record.sorted compareCodeUnits : Record JsString → _) = ascendingFirst :=
    funext sorted_eq_ascendingFirst
  refine canonicalProtocolBytes_eq_ok_iff.mpr ⟨text, htext, ?_⟩
  rw [objectBytes, ← hsorted, canonicalJson_eq_encode htext]

/-- What is hashed for an object of a kind. -/
def objectInput (kind : ObjectKind) (value : JsValue) : List UInt8 :=
  digestInput kind (expectedSchema kind) (objectBytes value)

/-- The descriptor of an object of a kind with a hash. -/
def descriptorOf (kind : ObjectKind) (hash : JsString) : ObjectDescriptor :=
  ⟨kind, expectedSchema kind, js "sha256:" ++ hash⟩

/-- A descriptor as the value that it is, its members in order. -/
def descriptorValue (kind : ObjectKind) (hash : JsString) : JsValue :=
  .obj [(js "digest", .str (js "sha256:" ++ hash)), (js "kind", .str kind.text),
    (js "schema", .str (expectedSchema kind))]

/-- A descriptor with a hash text reads back. -/
theorem parse_descriptorValue {kind : ObjectKind} {hash path : JsString} (hs : IsHashText hash) :
    parseObjectDescriptor (descriptorValue kind hash) path = .ok (descriptorOf kind hash) := by
  have hpattern := digestPattern_of_isHashText hs
  have hkeys : ∀ key ∈ [js "digest", js "kind", js "schema"],
      key ∈ [js "kind", js "schema", js "digest"] := by decide
  have hunicode : (descriptorValue kind hash).isUnicode = true :=
    isUnicode_of_members (fun key hkey => hkeys key hkey) rfl rfl rfl hpattern
  refine bind_eq_ok_iff.mpr ⟨(), assertProtocolDomain_of_isUnicode hunicode, ?_⟩
  refine bind_eq_ok_iff.mpr ⟨_, rfl, bind_eq_ok_iff.mpr ⟨kind.text, stringValue_str rfl, ?_⟩⟩
  refine bind_eq_ok_iff.mpr ⟨kind, descriptorSchema_eq_ok_iff.mpr rfl, ?_⟩
  exact bind_eq_ok_iff.mpr ⟨(), if_pos rfl, bind_eq_ok_iff.mpr
    ⟨_, stringValue_str hpattern, rfl⟩⟩

/-- A descriptor of a kind with a hash text reads back. -/
theorem descriptorOfKind_descriptorValue {kind : ObjectKind} {hash path : JsString}
    (hs : IsHashText hash) :
    descriptorOfKind kind (descriptorValue kind hash) path = .ok (descriptorOf kind hash) :=
  bind_eq_ok_iff.mpr ⟨_, parse_descriptorValue hs, refuse_eq_ok_iff.mpr ⟨not_not.mpr rfl, rfl⟩⟩

/-- The codec of JSON. -/
def jsonCodec : JsValue :=
  .obj [(js "mediaType", .str (js "application/json")), (js "version", .str (js "1"))]

/-- A State with a value. -/
def stateOf (value : JsValue) : JsValue :=
  .obj [(js "codec", jsonCodec), (js "schema", .str stateSchema), (js "value", value)]

/-- A State without content. -/
def emptyBase : JsValue := stateOf (.obj [])

/-- The State that the Effect takes as its input. -/
def sourceState : JsValue := stateOf (.obj [(js "a", .null)])

/-- The hash of the State that the Effect takes as its input. -/
def sourceHash : JsString := js "b633ee731c561080195b81eac2fade36df7f7b59147f1d5bf7d5709608647c1b"

/-- The hash of the Effect. -/
def mergeEffectHash : JsString :=
  js "416c910ec388af6dfa5d3ad02e921ecd23e124d4d3045177e5b02e9b31cc1bb2"

/-- The hash of the Proposal. -/
def mergeProposalHash : JsString :=
  js "a1a8acfad53b6237dcd72c848de9f3aaef43d4fd2b3682a5c0d522a8d61259ab"

/-- The hash of the Decision. -/
def mergeDecisionHash : JsString :=
  js "a21053fcbb459704e3337a19addf0c0beeaad3302e32dd0608bbfdba78f0d6b2"

/-- A driver. -/
def mergeDriver : JsValue :=
  .obj [(js "protocol", .str (js "p")), (js "protocolVersion", .str (js "1")),
    (js "specDigest", .str (js "sha256:" ++ List.replicate 64 48))]

/-- One input. -/
def mergeInputs : JsValue :=
  .arr [.obj [(js "object", descriptorValue .state sourceHash), (js "role", .str (js "source"))]]

/-- The definition of an Effect with one input. -/
def mergeDefinition : JsValue :=
  .obj [(js "driver", mergeDriver), (js "operations", .arr []), (js "inputs", mergeInputs)]

/-- An Effect with one input. -/
def mergeEffect : JsValue :=
  .obj [(js "base", descriptorValue .state emptyStateHash), (js "driver", mergeDriver),
    (js "inputs", mergeInputs), (js "operations", .arr []),
    (js "result", descriptorValue .state emptyStateHash), (js "schema", .str effectSchema)]

/-- Somebody. -/
def mergeActor : JsValue := .obj [(js "id", .str (js "a")), (js "kind", .str (js "human"))]

/-- A claim that is left open. -/
def unspecified : JsValue := .obj [(js "mode", .str (js "unspecified"))]

/-- A Statement of somebody about one object. -/
def statementAbout (kind : ObjectKind) (hash predicateType : JsString) (predicate : JsValue) :
    JsValue :=
  .obj [(js "actor", mergeActor), (js "predicate", predicate),
    (js "predicateType", .str predicateType), (js "schema", .str statementSchema),
    (js "subjects", .arr [descriptorValue kind hash])]

/-- The Proposal of the Effect. -/
def mergeProposal : JsValue :=
  statementAbout .effect mergeEffectHash proposalPredicateType
    (.obj [(js "intent", unspecified), (js "rationale", unspecified)])

/-- The Decision for the Proposal. -/
def mergeDecision : JsValue :=
  statementAbout .statement mergeProposalHash decisionPredicateType
    (.obj [(js "considered", .arr []), (js "decidedAt", .str (js "2026-01-01T00:00:00.000Z")),
      (js "outcome", .str (js "accepted")), (js "policy", .obj [(js "mode",
        .str (js "not_evaluated"))]), (js "rationale", unspecified)])

/-- The commit of the Decision. -/
def mergeCommit : JsValue :=
  .obj [(js "decision", descriptorValue .statement mergeDecisionHash), (js "parents", .arr []),
    (js "result", descriptorValue .state emptyStateHash), (js "schema", .str commitV2Schema)]

/-- The hashes of the objects on the way from the commit. -/
def mergeHash (input : List UInt8) : JsString :=
  if input = objectInput .effect mergeEffect then mergeEffectHash
  else if input = objectInput .statement mergeProposal then mergeProposalHash
  else if input = objectInput .statement mergeDecision then mergeDecisionHash
  else if input = objectInput .state sourceState then sourceHash
  else emptyStateHash

/-- The store of the objects on the way from the commit, without the input of the Effect. -/
def mergeStore : Record (List UInt8) :=
  [(descriptorKey (descriptorOf .state emptyStateHash), objectBytes emptyBase),
    (descriptorKey (descriptorOf .effect mergeEffectHash), objectBytes mergeEffect),
    (descriptorKey (descriptorOf .statement mergeProposalHash), objectBytes mergeProposal),
    (descriptorKey (descriptorOf .statement mergeDecisionHash), objectBytes mergeDecision)]

/-- An object of a kind has the descriptor with its hash. -/
theorem describe_of_hash {sha256 : List UInt8 → JsString} {kind : ObjectKind} {value : JsValue}
    {hash : JsString} (hparse : parseProtocolObject value = .ok value)
    (hschema : part value "schema" = .str (expectedSchema kind))
    (hhash : sha256 (objectInput kind value) = hash) :
    describeProtocolObject sha256 value = .ok (descriptorOf kind hash) := by
  have hbytes : canonicalProtocolObjectBytes value = .ok (objectBytes value) :=
    canonicalProtocolObjectBytes_eq_ok_iff.mpr
      ⟨hparse, canonicalProtocolBytes_eq (isUnicode_of_parse hparse)⟩
  exact describeProtocolObject_eq_ok_iff.mpr ⟨_, hbytes, kindForSchema_eq_some_iff.mpr
    ⟨hschema, schemaToKind_eq_some_iff.mpr rfl⟩, congrArg (js "sha256:" ++ ·) hhash.symm⟩

/-- An object of the store resolves to itself. -/
theorem resolves_of_stored {sha256 : List UInt8 → JsString} {store : Record (List UInt8)}
    {kind : ObjectKind} {value : JsValue} {hash : JsString} (hs : IsHashText hash)
    (hparse : parseProtocolObject value = .ok value)
    (hschema : part value "schema" = .str (expectedSchema kind))
    (hhash : sha256 (objectInput kind value) = hash)
    (hget : Record.get store (descriptorKey (descriptorOf kind hash)) = some (objectBytes value))
    (hread : parseProtocolJsonBytes (objectBytes value) = .ok value) :
    Resolves sha256 store (descriptorValue kind hash) value := by
  have hbytes : canonicalProtocolObjectBytes value = .ok (objectBytes value) :=
    canonicalProtocolObjectBytes_eq_ok_iff.mpr
      ⟨hparse, canonicalProtocolBytes_eq (isUnicode_of_parse hparse)⟩
  exact resolveProtocolObject_eq_ok_iff.mpr ⟨_, _, parse_descriptorValue hs, hget,
    ⟨describe_of_hash hparse hschema hhash, hbytes⟩,
    bind_eq_ok_iff.mpr ⟨value, hread, hparse⟩⟩

/-- A string literal, read as the list of its characters. -/
theorem js_ofList (cs : List Char) : js (String.ofList cs) = cs.flatMap utf16 := by
  rw [js, String.toList_ofList]

/-- What is evaluated of the objects on the way from the commit. -/
structure MergeEvaluated : Prop where
  /-- The hashes are 64 hexadecimal digits. -/
  hashes : ∀ hash ∈ [emptyStateHash, sourceHash, mergeEffectHash, mergeProposalHash,
    mergeDecisionHash], hash.length = 64 ∧ hash.all isLowerHex = true
  /-- No object has a lone surrogate. -/
  unicode : ∀ value ∈ [mergeDefinition, mergeEffect, mergeProposal, mergeDecision, mergeCommit],
    value.isUnicode = true
  /-- The role of the input is an identifier. -/
  role : identifier (.str (js "source")) (fieldPath (itemPath (js "$.inputs") 0) "role") =
    .ok (js "source")
  /-- The driver is a driver. -/
  driver : mutationDriverRef mergeDriver (js "$.driver") = .ok ()
  /-- The types of the Statements are identifiers. -/
  types : ∀ predicateType ∈ [proposalPredicateType, decisionPredicateType],
    identifier (.str predicateType) (js "$.predicateType") = .ok predicateType
  /-- The Proposal proposes. -/
  proposal : proposalPredicate (part mergeProposal "predicate") (js "$.predicate") = .ok ()
  /-- The Decision decides. -/
  decision : decisionPredicate (part mergeDecision "predicate") (js "$.predicate") = .ok ()
  /-- The inputs of the hashes differ in their first hundred bytes, or in their length. -/
  inputs : ([objectInput .effect mergeEffect, objectInput .statement mergeProposal,
    objectInput .statement mergeDecision, objectInput .state sourceState,
    objectInput .state emptyBase].map fun input => (input.take 100, input.length)).Nodup
  /-- The objects read back from their bytes. -/
  reads : ∀ value ∈ [emptyBase, sourceState, mergeEffect, mergeProposal, mergeDecision],
    parseProtocolJsonBytes (objectBytes value) = .ok value
  /-- The keys of the objects differ. -/
  keys : ([descriptorOf .state emptyStateHash, descriptorOf .effect mergeEffectHash,
    descriptorOf .statement mergeProposalHash, descriptorOf .statement mergeDecisionHash,
    descriptorOf .state sourceHash].map descriptorKey).Nodup

/-- A State with a value without lone surrogates is a State. -/
theorem parse_stateOf {value : JsValue} (hunicode : (stateOf value).isUnicode = true)
    (hvalue : value.isUnicode = true) :
    parseProtocolObject (stateOf value) = .ok (stateOf value) := by
  have hdomain := assertProtocolDomain_of_isUnicode hunicode
  have hcodec : stateCodecRef jsonCodec (js "$.codec") = .ok () := by decide
  refine bind_eq_ok_iff.mpr ⟨(), hdomain, bind_eq_ok_iff.mpr ⟨_, rfl, (if_pos rfl).trans ?_⟩⟩
  refine bind_eq_ok_iff.mpr ⟨(), hdomain, bind_eq_ok_iff.mpr ⟨_, rfl, ?_⟩⟩
  exact bind_eq_ok_iff.mpr ⟨(), if_pos rfl, bind_eq_ok_iff.mpr ⟨(), hcodec,
    bind_eq_ok_iff.mpr ⟨(), assertProtocolDomain_of_isUnicode hvalue, rfl⟩⟩⟩

/-- A Statement about one object is one if its predicate is one of its type. -/
theorem parse_statementAbout {kind : ObjectKind} {hash predicateType : JsString}
    {predicate : JsValue} (hs : IsHashText hash)
    (hunicode : (statementAbout kind hash predicateType predicate).isUnicode = true)
    (htype : identifier (.str predicateType) (js "$.predicateType") = .ok predicateType)
    (hpredicate : (predicateType = proposalPredicateType ∧ kind = .effect ∧
        proposalPredicate predicate (js "$.predicate") = .ok ()) ∨
      (predicateType = decisionPredicateType ∧ kind = .statement ∧
        decisionPredicate predicate (js "$.predicate") = .ok ())) :
    parseProtocolObject (statementAbout kind hash predicateType predicate) =
      .ok (statementAbout kind hash predicateType predicate) := by
  have hdomain := assertProtocolDomain_of_isUnicode hunicode
  have hactor : actorRef mergeActor (js "$.actor") = .ok () := by decide
  have hsubject : eachItem parseObjectDescriptor (js "$.subjects") 0 [descriptorValue kind hash] =
      .ok [descriptorOf kind hash] :=
    bind_eq_ok_iff.mpr ⟨_, parse_descriptorValue hs, bind_eq_ok_iff.mpr ⟨[], rfl, rfl⟩⟩
  refine bind_eq_ok_iff.mpr ⟨(), hdomain, bind_eq_ok_iff.mpr ⟨_, rfl, ?_⟩⟩
  refine (if_neg fun h => absurd (JsValue.str.inj h) (by decide)).trans ?_
  refine (if_neg fun h => absurd (JsValue.str.inj h) (by decide)).trans ((if_pos rfl).trans ?_)
  refine bind_eq_ok_iff.mpr ⟨(), hdomain, bind_eq_ok_iff.mpr ⟨_, rfl, ?_⟩⟩
  refine bind_eq_ok_iff.mpr ⟨(), if_pos rfl, bind_eq_ok_iff.mpr ⟨_, rfl, ?_⟩⟩
  refine refuse_eq_ok_iff.mpr ⟨by simp, bind_eq_ok_iff.mpr ⟨_, hsubject, ?_⟩⟩
  refine bind_eq_ok_iff.mpr ⟨(), rfl, bind_eq_ok_iff.mpr ⟨(), hactor, ?_⟩⟩
  refine bind_eq_ok_iff.mpr ⟨predicateType, htype, ?_⟩
  rcases hpredicate with ⟨rfl, rfl, hpredicate⟩ | ⟨rfl, rfl, hpredicate⟩
  · refine (if_pos rfl).trans (refuse_eq_ok_iff.mpr ⟨not_not.mpr rfl, ?_⟩)
    exact bind_eq_ok_iff.mpr ⟨(), hpredicate, rfl⟩
  · refine (if_neg (by decide)).trans ((if_pos rfl).trans (refuse_eq_ok_iff.mpr
      ⟨not_not.mpr rfl, ?_⟩))
    exact bind_eq_ok_iff.mpr ⟨(), hpredicate, rfl⟩

/-- The store with the input of the Effect. -/
def sourceStore : Record (List UInt8) :=
  mergeStore ++ [(descriptorKey (descriptorOf .state sourceHash), objectBytes sourceState)]

/-- It has what the store without the input has. -/
theorem get_sourceStore (key : JsString) (bytes : List UInt8)
    (h : Record.get mergeStore key = some bytes) : Record.get sourceStore key = some bytes := by
  rw [sourceStore, Record.get_append, h]
  rfl

section evaluated

-- What is evaluated is evaluated once, for the last two theorems.
variable (hevaluated : MergeEvaluated)

include hevaluated

/-- The hashes are hash texts. -/
theorem isHashText_merge : ∀ hash ∈ [emptyStateHash, sourceHash, mergeEffectHash,
    mergeProposalHash, mergeDecisionHash], IsHashText hash := fun hash hmem =>
  have hdigits := hevaluated.hashes hash hmem
  ⟨hdigits.1, List.all_eq_true.mp hdigits.2⟩

/-- The definition of the Effect is one. -/
theorem parse_mergeDefinition : parseEffectDefinition mergeDefinition = .ok mergeDefinition := by
  have hinput : effectInput (.obj [(js "object", descriptorValue .state sourceHash),
      (js "role", .str (js "source"))]) (itemPath (js "$.inputs") 0) = .ok (js "source") :=
    bind_eq_ok_iff.mpr ⟨_, rfl, bind_eq_ok_iff.mpr ⟨js "source", hevaluated.role,
      bind_eq_ok_iff.mpr
        ⟨_, parse_descriptorValue (isHashText_merge hevaluated _ (by simp)), rfl⟩⟩⟩
  have hdomain := assertProtocolDomain_of_isUnicode
    (hevaluated.unicode mergeDefinition (by simp))
  refine bind_eq_ok_iff.mpr ⟨(), hdomain, ?_⟩
  refine bind_eq_ok_iff.mpr ⟨_, rfl, bind_eq_ok_iff.mpr ⟨(), hevaluated.driver, ?_⟩⟩
  refine bind_eq_ok_iff.mpr ⟨_, rfl, bind_eq_ok_iff.mpr ⟨_, rfl, ?_⟩⟩
  refine bind_eq_ok_iff.mpr ⟨_, rfl, bind_eq_ok_iff.mpr ⟨(), ?_, rfl⟩⟩
  exact bind_eq_ok_iff.mpr ⟨_, hinput, rfl⟩

/-- The Effect is an Effect. -/
theorem parse_mergeEffect : parseProtocolObject mergeEffect = .ok mergeEffect := by
  have hstate := isHashText_merge hevaluated emptyStateHash (by simp)
  have hdomain : assertProtocolDomain mergeEffect = .ok () :=
    assertProtocolDomain_of_isUnicode (hevaluated.unicode _ (by simp))
  refine bind_eq_ok_iff.mpr ⟨(), hdomain, bind_eq_ok_iff.mpr ⟨_, rfl, ?_⟩⟩
  refine (if_neg (by decide)).trans ((if_pos rfl).trans ?_)
  refine bind_eq_ok_iff.mpr ⟨(), hdomain, bind_eq_ok_iff.mpr ⟨_, rfl, ?_⟩⟩
  refine bind_eq_ok_iff.mpr ⟨(), if_pos rfl, ?_⟩
  refine bind_eq_ok_iff.mpr ⟨_, descriptorOfKind_descriptorValue hstate, ?_⟩
  refine bind_eq_ok_iff.mpr ⟨mergeDefinition, parse_mergeDefinition hevaluated, ?_⟩
  exact bind_eq_ok_iff.mpr ⟨_, descriptorOfKind_descriptorValue hstate, rfl⟩

/-- The Proposal is a Statement. -/
theorem parse_mergeProposal : parseProtocolObject mergeProposal = .ok mergeProposal :=
  parse_statementAbout (isHashText_merge hevaluated _ (by simp))
    (hevaluated.unicode mergeProposal (by simp)) (hevaluated.types _ (by simp))
    (.inl ⟨rfl, rfl, hevaluated.proposal⟩)

/-- The Decision is a Statement. -/
theorem parse_mergeDecision : parseProtocolObject mergeDecision = .ok mergeDecision :=
  parse_statementAbout (isHashText_merge hevaluated _ (by simp))
    (hevaluated.unicode mergeDecision (by simp)) (hevaluated.types _ (by simp))
    (.inr ⟨rfl, rfl, hevaluated.decision⟩)

/-- The commit is a Commit. -/
theorem parse_mergeCommit : parseCommitV2 mergeCommit = .ok mergeCommit := by
  have hdecision := isHashText_merge hevaluated mergeDecisionHash (by simp)
  have hstate := isHashText_merge hevaluated emptyStateHash (by simp)
  have hdomain := assertProtocolDomain_of_isUnicode
    (hevaluated.unicode mergeCommit (by simp))
  refine bind_eq_ok_iff.mpr ⟨(), hdomain, ?_⟩
  refine bind_eq_ok_iff.mpr ⟨_, rfl, bind_eq_ok_iff.mpr ⟨(), if_pos rfl, ?_⟩⟩
  refine bind_eq_ok_iff.mpr ⟨_, rfl, bind_eq_ok_iff.mpr ⟨_, rfl, ?_⟩⟩
  exact bind_eq_ok_iff.mpr ⟨_, descriptorOfKind_descriptorValue hdecision, bind_eq_ok_iff.mpr
    ⟨_, descriptorOfKind_descriptorValue hstate, rfl⟩⟩

/-- The inputs of the hashes differ. -/
theorem nodup_inputs : [objectInput .effect mergeEffect, objectInput .statement mergeProposal,
    objectInput .statement mergeDecision, objectInput .state sourceState,
    objectInput .state emptyBase].Nodup :=
  hevaluated.inputs.of_map

/-- The hash of the State without content. -/
theorem mergeHash_emptyBase : mergeHash (objectInput .state emptyBase) = emptyStateHash := by
  obtain ⟨heffect, hproposal, hdecision, hsource, -⟩ : _ ∧ _ ∧ _ ∧ _ ∧ _ := by
    simpa only [List.nodup_cons, List.mem_cons, List.not_mem_nil, or_false, not_or] using
      nodup_inputs hevaluated
  rw [mergeHash, if_neg (Ne.symm heffect.2.2.2), if_neg (Ne.symm hproposal.2.2),
    if_neg (Ne.symm hdecision.2), if_neg (Ne.symm hsource)]

/-- The hash of the State that is the input. -/
theorem mergeHash_sourceState : mergeHash (objectInput .state sourceState) = sourceHash := by
  obtain ⟨heffect, hproposal, hdecision, -⟩ : _ ∧ _ ∧ _ ∧ _ := by
    simpa only [List.nodup_cons, List.mem_cons, List.not_mem_nil, or_false, not_or] using
      nodup_inputs hevaluated
  rw [mergeHash, if_neg (Ne.symm heffect.2.2.1), if_neg (Ne.symm hproposal.2.1),
    if_neg (Ne.symm hdecision.1), if_pos rfl]

/-- The hash of the Proposal. -/
theorem mergeHash_mergeProposal :
    mergeHash (objectInput .statement mergeProposal) = mergeProposalHash := by
  obtain ⟨heffect, -⟩ : _ ∧ _ := by
    simpa only [List.nodup_cons, List.mem_cons, List.not_mem_nil, or_false, not_or] using
      nodup_inputs hevaluated
  rw [mergeHash, if_neg (Ne.symm heffect.1), if_pos rfl]

/-- The hash of the Decision. -/
theorem mergeHash_mergeDecision :
    mergeHash (objectInput .statement mergeDecision) = mergeDecisionHash := by
  obtain ⟨heffect, hproposal, -⟩ : _ ∧ _ ∧ _ := by
    simpa only [List.nodup_cons, List.mem_cons, List.not_mem_nil, or_false, not_or] using
      nodup_inputs hevaluated
  rw [mergeHash, if_neg (Ne.symm heffect.2.1), if_neg (Ne.symm hproposal.1), if_pos rfl]

/-- The store has every object on the way from the commit, and nothing for the input of the
Effect. -/
theorem get_mergeStore :
    Record.get mergeStore (descriptorKey (descriptorOf .effect mergeEffectHash)) =
        some (objectBytes mergeEffect) ∧
      Record.get mergeStore (descriptorKey (descriptorOf .statement mergeProposalHash)) =
        some (objectBytes mergeProposal) ∧
      Record.get mergeStore (descriptorKey (descriptorOf .statement mergeDecisionHash)) =
        some (objectBytes mergeDecision) ∧
      Record.get mergeStore (descriptorKey (descriptorOf .state sourceHash)) = none := by
  have hkeys := hevaluated.keys
  simp only [List.map_cons, List.map_nil, List.nodup_cons, List.mem_cons, List.not_mem_nil,
    or_false, not_or] at hkeys
  obtain ⟨hempty, heffect, hproposal, hdecision, -⟩ := hkeys
  refine ⟨?_, ?_, ?_, ?_⟩
  · rw [mergeStore, Record.get, if_neg hempty.1, Record.get, if_pos rfl]
  · rw [mergeStore, Record.get, if_neg hempty.2.1, Record.get, if_neg heffect.1, Record.get,
      if_pos rfl]
  · rw [mergeStore, Record.get, if_neg hempty.2.2.1, Record.get, if_neg heffect.2.1, Record.get,
      if_neg hproposal.1, Record.get, if_pos rfl]
  · rw [mergeStore, Record.get, if_neg hempty.2.2.2, Record.get, if_neg heffect.2.2, Record.get,
      if_neg hproposal.2, Record.get, if_neg hdecision, Record.get]

/-- The commit is intact in every store with the objects on the way from it. -/
theorem intact_merge {store : Record (List UInt8)}
    (hstore : ∀ key bytes, Record.get mergeStore key = some bytes →
      Record.get store key = some bytes) :
    Intact mergeHash store mergeCommit mergeDecision mergeProposal mergeEffect emptyBase := by
  have hbase : Resolves mergeHash store (descriptorValue .state emptyStateHash) emptyBase :=
    resolves_of_stored (isHashText_merge hevaluated _ (by simp))
      (parse_stateOf (by decide) (by decide)) rfl (mergeHash_emptyBase hevaluated)
      (hstore _ _ (if_pos rfl)) (hevaluated.reads _ (by simp))
  have heffect : Resolves mergeHash store (descriptorValue .effect mergeEffectHash) mergeEffect :=
    resolves_of_stored (isHashText_merge hevaluated _ (by simp)) (parse_mergeEffect hevaluated) rfl
      (if_pos rfl) (hstore _ _ (get_mergeStore hevaluated).1) (hevaluated.reads _ (by simp))
  have hproposal : Resolves mergeHash store (descriptorValue .statement mergeProposalHash)
      mergeProposal :=
    resolves_of_stored (isHashText_merge hevaluated _ (by simp)) (parse_mergeProposal hevaluated)
      rfl (mergeHash_mergeProposal hevaluated) (hstore _ _ (get_mergeStore hevaluated).2.1)
      (hevaluated.reads _ (by simp))
  have hdecision : Resolves mergeHash store (descriptorValue .statement mergeDecisionHash)
      mergeDecision :=
    resolves_of_stored (isHashText_merge hevaluated _ (by simp)) (parse_mergeDecision hevaluated)
      rfl (mergeHash_mergeDecision hevaluated) (hstore _ _ (get_mergeStore hevaluated).2.2.1)
      (hevaluated.reads _ (by simp))
  exact ⟨parse_mergeCommit hevaluated, hdecision, ⟨rfl, rfl⟩, by decide, hproposal, ⟨rfl, rfl⟩,
    heffect, rfl, by decide, hbase, ⟨_, hbase⟩, fun _ h => absurd h List.not_mem_nil, [], .nil,
    by decide⟩

/-- The input of the Effect is not in the store. -/
theorem not_resolves_source (object : JsValue) :
    ¬ Resolves mergeHash mergeStore (descriptorValue .state sourceHash) object := by
  intro h
  obtain ⟨d, bytes, hd, hget, -⟩ := resolveProtocolObject_eq_ok_iff.mp h
  obtain rfl := Except.ok.inj
    ((parse_descriptorValue (isHashText_merge hevaluated sourceHash (by simp))).symm.trans hd)
  rw [getObject, (get_mergeStore hevaluated).2.2.2] at hget
  cases hget

/-- The input of the Effect is in the store. -/
theorem resolves_source :
    Resolves mergeHash sourceStore (descriptorValue .state sourceHash) sourceState := by
  refine resolves_of_stored (isHashText_merge hevaluated _ (by simp))
    (parse_stateOf (by decide) (by decide)) rfl (mergeHash_sourceState hevaluated) ?_
    (hevaluated.reads _ (by simp))
  rw [sourceStore, Record.get_append, (get_mergeStore hevaluated).2.2.2, Option.none_or]
  exact if_pos rfl

end evaluated

/-- The objects on the way from the commit, evaluated. -/
theorem mergeEvaluated : MergeEvaluated := by
  constructor
  all_goals
    -- The kernel reads characters faster than literals.
    try simp only [emptyBase, sourceState, stateOf, jsonCodec, mergeDefinition, mergeEffect,
      mergeProposal, mergeDecision, mergeCommit, statementAbout, mergeActor, unspecified,
      mergeInputs, mergeDriver, descriptorValue, descriptorOf, ObjectKind.text, expectedSchema,
      stateSchema, effectSchema, statementSchema, commitV2Schema, proposalPredicateType,
      decisionPredicateType, emptyStateHash, sourceHash, mergeEffectHash, mergeProposalHash,
      mergeDecisionHash]
    repeat rw [js_ofList]
    decide +kernel

/-- A commit whose Effect names an input that is not in the store is accepted by the independent
verifier and refused by the source. -/
theorem verifiers_disagree_on_input : PackagesAgree protocolDumps protocolSchemaError ∧
    verifyCommit protocolDumps protocolSchemaError mergeHash mergeStore mergeCommit = .ok () ∧
    ∀ verified,
      verifyCommitIntegrity mergeHash (getObject mergeStore) mergeCommit ≠ .ok verified := by
  have hmerge := intact_merge mergeEvaluated fun _ _ h => h
  refine ⟨packagesAgree_protocol, (verifyCommit_eq_ok_iff packagesAgree_protocol).mpr
    ⟨_, _, _, _, hmerge⟩, fun verified h => ?_⟩
  obtain ⟨_, _, effect, _, hintact, hinputs⟩ := verifyCommitIntegrity_eq_ok_iff.mp ⟨verified, h⟩
  obtain rfl := hmerge.unique hintact
  obtain ⟨object, hobject⟩ := hinputs _ List.mem_cons_self
  exact not_resolves_source mergeEvaluated object hobject

/-- With the input in the store the verifiers agree on the commit. -/
theorem verifiers_agree_with_input :
    verifyCommit protocolDumps protocolSchemaError mergeHash sourceStore mergeCommit = .ok () ↔
      ∃ verified,
        verifyCommitIntegrity mergeHash (getObject sourceStore) mergeCommit = .ok verified := by
  refine (verifiers_agree_iff packagesAgree_protocol _ _ _).mpr ?_
  intro decision proposal effect base h input hinput
  obtain rfl := (intact_merge mergeEvaluated get_sourceStore).unique h
  obtain rfl := List.mem_singleton.mp hinput
  exact ⟨sourceState, resolves_source mergeEvaluated⟩

end T3x.Transition.Independent
