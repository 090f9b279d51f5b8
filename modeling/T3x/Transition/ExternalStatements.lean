import T3x.Transition.Commits
import T3x.Transition.Descriptors

/-!
# External Statements

A client attaches a Statement of its own to a Transition: it picks the roles of
the subjects, and the control plane orders the descriptors of the roles by the
names of the roles. The protocol takes subjects in the order of their canonical
bytes only, which is the order of the digests.
-/

namespace T3x.Transition

open Js Independent

/-! ## The command -/

/-- `REPLAY_PREDICATE_TYPE`. -/
def replayPredicateType : JsString := js "t3x.dev/replay-verification/v1"

/-- `CORE_PREDICATE_TYPES`. -/
def corePredicateTypes : List JsString := [proposalPredicateType, decisionPredicateType]

/-- `TransitionSubjectRole`. -/
inductive TransitionSubjectRole where
  | effect
  | result
  | proposal
  deriving DecidableEq

/-- The word for a role. -/
def TransitionSubjectRole.text : TransitionSubjectRole → JsString
  | .effect => js "effect"
  | .result => js "result"
  | .proposal => js "proposal"

/-- The kinds of actors. -/
inductive ActorKind where
  | human
  | agent
  | service
  deriving DecidableEq

/-- The word for a kind of actors. -/
def ActorKind.text : ActorKind → JsString
  | .human => js "human"
  | .agent => js "agent"
  | .service => js "service"

/-- `TransitionActorRef`. -/
structure TransitionActorRef where
  /-- The kind of the actor. -/
  kind : ActorKind
  /-- The name of the actor. -/
  id : JsString

/-- An actor as the value that it is. -/
def TransitionActorRef.value (actor : TransitionActorRef) : JsValue :=
  .obj [(js "kind", .str actor.kind.text), (js "id", .str actor.id)]

/-- The objects of a `TransitionInspectionGraph` that a Statement can be about. -/
structure TransitionInspectionGraph where
  /-- The Effect. -/
  effect : JsValue
  /-- The Proposal. -/
  proposal : JsValue
  /-- The Effect is one. -/
  isEffect : parseEffect effect = .ok effect
  /-- The Proposal is one. -/
  isProposal : parseProposalStatement proposal = .ok proposal

/-- `TransitionExternalStatementDraft`. -/
structure TransitionExternalStatementDraft where
  /-- The type of the predicate. -/
  predicateType : JsString
  /-- The predicate. -/
  predicate : JsValue
  /-- The roles of the subjects. -/
  subjects : List TransitionSubjectRole

/-- What `createExternalStatement` throws. -/
inductive ExternalStatementError where
  /-- A `TransitionPredicateNotAllowedError`, with its code. -/
  | predicateNotAllowed (code message : JsString)
  /-- A `TypeError`. -/
  | typeError (message : JsString)
  /-- An error of the protocol. -/
  | protocol (error : ProtocolError)

/-- `assertExternalPredicate(predicateType, allowed, providerAllowed)`. -/
def assertExternalPredicate (predicateType : JsString) (allowed : List JsString)
    (providerAllowed : Option (List JsString)) : Except ExternalStatementError Unit :=
  if corePredicateTypes.contains predicateType || predicateType == replayPredicateType ||
      !allowed.contains predicateType ||
      providerAllowed.any fun types => !types.contains predicateType then
    .error (.predicateNotAllowed (js "TRANSITION_PREDICATE_NOT_ALLOWED")
      (js "Predicate type " ++ predicateType ++
        js " is not allowed on this Transition endpoint"))
  else .ok ()

/-- `comparePortable(left, right)`. -/
def comparePortable (left right : JsString) : ℤ := compareCodeUnits left right

section

variable (sha256 : List UInt8 → JsString)

/-- `subjectDescriptors(graph, roles)`. -/
def subjectDescriptors (graph : TransitionInspectionGraph) (roles : List TransitionSubjectRole) :
    Except ProtocolError (List JsValue) := do
  let effect ← describeProtocolObject sha256 graph.effect
  let proposal ← describeProtocolObject sha256 graph.proposal
  let byRole : TransitionSubjectRole → JsValue := fun role =>
    match role with
    | .effect => effect.value
    | .result => part graph.effect "result"
    | .proposal => proposal.value
  return (sortBy (fun a b => comparePortable a.text b.text) (distinct roles)).map byRole

/-- The value that `createExternalStatement` has parsed. -/
def externalStatement (subjects : List JsValue) (actor : TransitionActorRef)
    (draft : TransitionExternalStatementDraft) : JsValue :=
  .obj [(js "schema", .str statementSchema), (js "subjects", .arr subjects),
    (js "actor", actor.value), (js "predicateType", .str draft.predicateType),
    (js "predicate", draft.predicate)]

/-- `createExternalStatement(input)`. -/
def createExternalStatement (graph : TransitionInspectionGraph) (actor : TransitionActorRef)
    (draft : TransitionExternalStatementDraft) (allowed : List JsString)
    (providerAllowed : Option (List JsString)) : Except ExternalStatementError JsValue := do
  assertExternalPredicate draft.predicateType allowed providerAllowed
  if draft.subjects.isEmpty then
    throw (.typeError (js "External Statement requires at least one subject role"))
  let subjects ← (subjectDescriptors sha256 graph draft.subjects).mapError .protocol
  (parseStatement (externalStatement subjects actor draft)).mapError .protocol

/-- The descriptor of a role. -/
def roleDescriptor (graph : TransitionInspectionGraph) :
    TransitionSubjectRole → Except ProtocolError ObjectDescriptor
  | .effect => describeProtocolObject sha256 graph.effect
  | .result => parseObjectDescriptor (part graph.effect "result") (js "$.result")
  | .proposal => describeProtocolObject sha256 graph.proposal

/-- The subjects of a Statement are the descriptors of the roles, each once. -/
def SubjectsAre (graph : TransitionInspectionGraph) (roles : List TransitionSubjectRole)
    (statement : JsValue) : Prop :=
  ∃ descriptors, eachItem parseObjectDescriptor (js "$.subjects") 0 (parts statement "subjects") =
    .ok descriptors ∧ descriptors.Nodup ∧
      ∀ d, d ∈ descriptors ↔ ∃ role ∈ roles, roleDescriptor sha256 graph role = .ok d

/-- An external Statement can be built for a draft, and it has the subjects of the draft. -/
def Buildable (graph : TransitionInspectionGraph) (actor : TransitionActorRef)
    (draft : TransitionExternalStatementDraft) (allowed : List JsString)
    (providerAllowed : Option (List JsString)) : Prop :=
  ∃ statement, createExternalStatement sha256 graph actor draft allowed providerAllowed =
    .ok statement ∧ SubjectsAre sha256 graph draft.subjects statement

/-- One descriptor stands in front of another one: its digest is smaller, or the digests are equal
and one is of an Effect, the other of something else. -/
def Precedes (d d' : ObjectDescriptor) : Prop :=
  compareCodeUnits d.digest d'.digest < 0 ∨
    d.digest = d'.digest ∧ d.kind = .effect ∧ d'.kind ≠ .effect

/-- Whether one descriptor stands in front of another one can be tested. -/
instance (d d' : ObjectDescriptor) : Decidable (Precedes d d') :=
  inferInstanceAs (Decidable (_ ∨ _ ∧ _ ∧ _))

/-- Of two roles the one with the smaller name has the descriptor in front. -/
def DigestsFollowNames (graph : TransitionInspectionGraph) (roles : List TransitionSubjectRole) :
    Prop :=
  ∀ role ∈ roles, ∀ role' ∈ roles, compareCodeUnits role.text role'.text < 0 →
    ∀ d d', roleDescriptor sha256 graph role = .ok d → roleDescriptor sha256 graph role' = .ok d' →
      Precedes d d'

end

/-! ## The order of descriptors of several kinds -/

/-- Where the parts in front have one length, they decide before the parts behind. -/
theorem compareBytes_append_neg_iff {a b s t : List UInt8} (h : a.length = b.length) :
    compareBytes (a ++ s) (b ++ t) < 0 ↔
      compareBytes a b < 0 ∨ a = b ∧ compareBytes s t < 0 := by
  induction a generalizing b with
  | nil =>
    obtain rfl := List.length_eq_zero_iff.mp h.symm
    simp [compareBytes]
  | cons x a ih =>
    cases b with
    | nil => simp at h
    | cons y b =>
      have hrest := ih (Nat.succ.inj h)
      simp only [List.cons_append, compareBytes, List.cons.injEq]
      by_cases hxy : x = y
      · simp only [hxy, if_true, true_and]
        exact hrest
      · simp only [hxy, if_false, false_and, or_false]

/-- ASCII texts with the same bytes are equal. -/
theorem unitBytes_inj {a b : JsString} (ha : IsAscii a) (hb : IsAscii b) :
    unitBytes a = unitBytes b ↔ a = b := by
  rw [← compareBytes_eq_zero_iff, ← isStringOrder_compareCodeUnits.eq_zero]
  have hlt := compareBytes_unitBytes_neg_iff ha hb
  have hgt := compareBytes_unitBytes_neg_iff hb ha
  rw [compareBytes_swap, isStringOrder_compareCodeUnits.swap] at hgt
  omega

/-- Descriptors have the order of their digests, then that of what stands behind the digests. -/
theorem compareBytes_descriptor_neg_iff (kind kind' : ObjectKind) {digest digest' : JsString}
    (h : IsDigest digest) (h' : IsDigest digest') :
    compareBytes (bytesOf (descriptorWith kind digest).value)
        (bytesOf (descriptorWith kind' digest').value) < 0 ↔
      compareCodeUnits digest digest' < 0 ∨ digest = digest' ∧
        compareBytes (unitBytes (digestClosing kind)) (unitBytes (digestClosing kind')) < 0 := by
  have hascii : ∀ {text : JsString}, IsDigest text → IsAscii text := by
    rintro _ ⟨hash, hhash, rfl⟩
    exact (isPlain_digest hhash).isAscii
  have hlength : (unitBytes digest).length = (unitBytes digest').length := by
    simp [unitBytes, h.length_eq, h'.length_eq]
  have hbytes : ∀ (kind : ObjectKind) {text : JsString}, IsDigest text →
      bytesOf (descriptorWith kind text).value =
        unitBytes digestOpening ++ (unitBytes text ++ unitBytes (digestClosing kind)) := by
    intro kind text htext
    rw [bytesOf, canonicalProtocolBytes_descriptor kind htext]
    simp [unitBytes]
  rw [hbytes kind h, hbytes kind' h', compareBytes_append_left,
    compareBytes_append_neg_iff hlength, compareBytes_unitBytes_neg_iff (hascii h) (hascii h'),
    unitBytes_inj (hascii h) (hascii h')]

/-- What is read as a descriptor is the descriptor. -/
theorem same_of_parseObjectDescriptor {value : JsValue} {path : JsString} {d : ObjectDescriptor}
    (h : parseObjectDescriptor value path = .ok d) : JsValue.Same value d.value := by
  obtain ⟨_, -, h⟩ := bind_eq_ok_iff.mp h
  obtain ⟨record, hrecord, h⟩ := bind_eq_ok_iff.mp h
  obtain ⟨word, hword, h⟩ := bind_eq_ok_iff.mp h
  obtain ⟨kind, hkind, h⟩ := bind_eq_ok_iff.mp h
  obtain ⟨_, hschema, h⟩ := bind_eq_ok_iff.mp h
  obtain ⟨hash, hhash, h⟩ := bind_eq_ok_iff.mp h
  obtain rfl := Except.ok.inj h
  obtain ⟨rfl, hallowed, hrequired⟩ := closedRecord_eq_ok_iff.mp hrecord
  obtain rfl := descriptorSchema_eq_ok_iff.mp hkind
  have hget : ∀ {key : String} {text : JsString}, js key ∈ [js "kind", js "schema", js "digest"] →
      field record key = .str text → Record.get record (js key) = some (.str text) := by
    intro key text hmem hfield
    obtain ⟨v, hv⟩ := Record.has_eq_true.mp (hrequired _ hmem)
    rw [field, hv, Option.getD_some] at hfield
    rw [hv, hfield]
  have hkindMember := hget (by simp) (stringValue_eq_ok hword).1
  have hschemaMember := hget (by simp) (literal_eq_ok_iff.mp hschema)
  have hdigestMember := hget (by simp) (stringValue_eq_ok hhash).1
  refine JsValue.denote_obj_eq_iff.mpr fun key => congrArg _ ?_
  by_cases hkey : key ∈ [js "kind", js "schema", js "digest"]
  · have hne : js "kind" ≠ js "schema" ∧ js "kind" ≠ js "digest" ∧ js "schema" ≠ js "digest" := by
      decide
    simp only [List.mem_cons, List.not_mem_nil, or_false] at hkey
    rcases hkey with rfl | rfl | rfl
    · rw [hkindMember, Record.get, if_pos rfl]
    · rw [hschemaMember, Record.get, if_neg hne.1, Record.get, if_pos rfl]
    · rw [hdigestMember, Record.get, if_neg hne.2.1, Record.get, if_neg hne.2.2, Record.get,
        if_pos rfl]
  · have habsent : Record.get record key = none := by
      refine Option.eq_none_iff_forall_ne_some.mpr fun v hv => hkey ?_
      exact hallowed key (Record.mem_keys.mpr (Record.has_eq_true.mpr ⟨v, hv⟩))
    simp only [List.mem_cons, List.not_mem_nil, or_false, not_or] at hkey
    rw [habsent, Record.get, if_neg (Ne.symm hkey.1), Record.get, if_neg (Ne.symm hkey.2.1),
      Record.get, if_neg (Ne.symm hkey.2.2), Record.get]

/-! ## The roles in order -/

/-- The kind of the object of a role. -/
def TransitionSubjectRole.kind : TransitionSubjectRole → ObjectKind
  | .effect => .effect
  | .result => .state
  | .proposal => .statement

/-- The chosen roles, each once, by name. -/
def orderedRoles (roles : List TransitionSubjectRole) : List TransitionSubjectRole :=
  [TransitionSubjectRole.effect, .proposal, .result].filter fun role => decide (role ∈ roles)

/-- The chosen roles are in the list by name. -/
theorem mem_orderedRoles {role : TransitionSubjectRole} {roles : List TransitionSubjectRole} :
    role ∈ orderedRoles roles ↔ role ∈ roles := by
  have hall : role ∈ [TransitionSubjectRole.effect, .proposal, .result] := by cases role <;> simp
  rw [orderedRoles, List.mem_filter, decide_eq_true_iff]
  exact and_iff_right hall

/-- The list by name repeats no role. -/
theorem nodup_orderedRoles (roles : List TransitionSubjectRole) : (orderedRoles roles).Nodup :=
  List.Nodup.filter _ (by decide)

/-- Sorting the distinct roles by name gives the list by name. -/
theorem sortBy_distinct_roles (roles : List TransitionSubjectRole) :
    sortBy (fun a b => comparePortable a.text b.text) (distinct roles) = orderedRoles roles := by
  have hc : IsComparison fun a b : TransitionSubjectRole => comparePortable a.text b.text :=
    isStringOrder_compareCodeUnits.isComparison.comap _
  have hnames : [TransitionSubjectRole.effect, .proposal, .result].Pairwise fun a b =>
      comparePortable a.text b.text ≤ 0 := by decide
  have hantisymm : ∀ a b : TransitionSubjectRole, comparePortable a.text b.text ≤ 0 →
      comparePortable b.text a.text ≤ 0 → a = b := by
    intro a b
    cases a <;> cases b <;> decide
  have hperm : (sortBy (fun a b => comparePortable a.text b.text) (distinct roles)).Perm
      (orderedRoles roles) := by
    refine (sortBy_perm _ _).trans ?_
    rw [List.perm_ext_iff_of_nodup (nodup_distinct roles) (nodup_orderedRoles roles)]
    intro role
    rw [mem_distinct, mem_orderedRoles]
  exact hperm.eq_of_pairwise (fun a b _ _ => hantisymm a b) (hc.sortBy_pairwise _)
    (hnames.filter _)

/-- What holds between a role and the later ones by name holds where the names ascend. -/
theorem pairwise_orderedRoles {roles : List TransitionSubjectRole}
    {R : TransitionSubjectRole → TransitionSubjectRole → Prop} :
    (orderedRoles roles).Pairwise R ↔ ∀ role ∈ roles, ∀ role' ∈ roles,
      compareCodeUnits role.text role'.text < 0 → R role role' := by
  have hnames : ∀ role role' : TransitionSubjectRole, compareCodeUnits role.text role'.text < 0 ↔
      (role, role') ∈ [(TransitionSubjectRole.effect, TransitionSubjectRole.proposal),
        (.effect, .result), (.proposal, .result)] := by
    intro role role'
    cases role <;> cases role' <;> decide
  rw [orderedRoles, List.pairwise_filter]
  simp only [hnames, List.pairwise_cons, List.mem_cons, List.not_mem_nil, or_false,
    decide_eq_true_eq, Prod.mk.injEq, forall_eq_or_imp, forall_eq, false_imp_iff, implies_true,
    List.Pairwise.nil, and_true]
  constructor
  · rintro ⟨⟨hproposal, hresult⟩, hlast⟩ role hrole role' hrole'
      (⟨rfl, rfl⟩ | ⟨rfl, rfl⟩ | ⟨rfl, rfl⟩)
    · exact hproposal hrole hrole'
    · exact hresult hrole hrole'
    · exact hlast hrole hrole'
  · intro h
    exact ⟨⟨fun hrole hrole' => h _ hrole _ hrole' (by simp),
      fun hrole hrole' => h _ hrole _ hrole' (by simp)⟩,
      fun hrole hrole' => h _ hrole _ hrole' (by simp)⟩

/-! ## The descriptors of the roles -/

section

variable {sha256 : List UInt8 → JsString}

/-- An Effect is a protocol object of its kind. -/
theorem object_of_parseEffect {effect : JsValue} (h : parseEffect effect = .ok effect) :
    parseProtocolObject effect = .ok effect ∧
      kindForSchema effect = some (.effect, effectSchema) := by
  have hparse := h
  obtain ⟨_, hdomain, h⟩ := bind_eq_ok_iff.mp h
  obtain ⟨record, hrecord, h⟩ := bind_eq_ok_iff.mp h
  obtain ⟨_, hschema, -⟩ := bind_eq_ok_iff.mp h
  obtain ⟨rfl, -⟩ := closedRecord_eq_ok_iff.mp hrecord
  rw [literal_eq_ok_iff] at hschema
  have hstate : field record "schema" ≠ .str stateSchema := by
    rw [hschema]
    exact fun h => absurd (JsValue.str.inj h) (by decide)
  have hclosed : closedRecord (.obj record) (js "$") [js "schema"] protocolFields = .ok record :=
    closedRecord_mono hrecord (by decide) (by decide)
  refine ⟨bind_eq_ok_iff.mpr ⟨(), hdomain, bind_eq_ok_iff.mpr ⟨record, hclosed, ?_⟩⟩,
    (if_neg hstate).trans (if_pos hschema)⟩
  rw [if_neg hstate, if_pos hschema]
  exact hparse

/-- An object of a kind has a descriptor of the kind. -/
theorem exists_describe_of_kind (hhash : ∀ input, IsHashText (sha256 input)) {object : JsValue}
    {kind : ObjectKind} (hobject : parseProtocolObject object = .ok object)
    (hkind : kindForSchema object = some (kind, expectedSchema kind)) :
    ∃ digest, IsDigest digest ∧
      describeProtocolObject sha256 object = .ok (descriptorWith kind digest) := by
  have hbytes := canonicalProtocolObjectBytes_eq_ok_iff.mpr
    ⟨hobject, canonicalProtocolBytes_eq (isUnicode_of_parse hobject)⟩
  refine ⟨js "sha256:" ++ sha256 (digestInput kind (expectedSchema kind) (objectBytes object)),
    ⟨_, hhash _, rfl⟩, ?_⟩
  exact describeProtocolObject_eq_ok_iff.mpr ⟨_, hbytes, hkind, rfl⟩

/-- What is read as a descriptor has a digest. -/
theorem isDigest_of_parseObjectDescriptor {value : JsValue} {path : JsString}
    {d : ObjectDescriptor} (h : parseObjectDescriptor value path = .ok d) :
    IsDigest d.digest ∧ d = descriptorWith d.kind d.digest := by
  obtain ⟨_, -, h⟩ := bind_eq_ok_iff.mp h
  obtain ⟨record, -, h⟩ := bind_eq_ok_iff.mp h
  obtain ⟨word, -, h⟩ := bind_eq_ok_iff.mp h
  obtain ⟨kind, -, h⟩ := bind_eq_ok_iff.mp h
  obtain ⟨_, -, h⟩ := bind_eq_ok_iff.mp h
  obtain ⟨hash, hhash, h⟩ := bind_eq_ok_iff.mp h
  obtain rfl := Except.ok.inj h
  have hpattern := (stringValue_eq_ok hhash).2
  simp only [digestPattern, Bool.and_eq_true, decide_eq_true_eq, List.all_eq_true] at hpattern
  exact ⟨⟨hash.drop 7, ⟨hpattern.1.2, hpattern.2⟩,
    hpattern.1.1 ▸ (List.take_append_drop 7 hash).symm⟩, rfl⟩

/-- An Effect ends at a State. -/
theorem exists_result {effect : JsValue} (h : parseEffect effect = .ok effect) :
    ∃ d, parseObjectDescriptor (part effect "result") (js "$.result") = .ok d ∧
      d.kind = .state := by
  obtain ⟨_, -, h⟩ := bind_eq_ok_iff.mp h
  obtain ⟨record, hrecord, h⟩ := bind_eq_ok_iff.mp h
  obtain ⟨_, -, h⟩ := bind_eq_ok_iff.mp h
  obtain ⟨_, -, h⟩ := bind_eq_ok_iff.mp h
  obtain ⟨_, -, h⟩ := bind_eq_ok_iff.mp h
  obtain ⟨result, hresult, -⟩ := bind_eq_ok_iff.mp h
  obtain ⟨rfl, -⟩ := closedRecord_eq_ok_iff.mp hrecord
  exact ⟨result, descriptorOfKind_eq_ok hresult⟩

/-- The role of an object in a graph has a descriptor of the kind of the role. -/
theorem exists_roleDescriptor (hhash : ∀ input, IsHashText (sha256 input))
    (graph : TransitionInspectionGraph) (role : TransitionSubjectRole) :
    ∃ digest, IsDigest digest ∧
      roleDescriptor sha256 graph role = .ok (descriptorWith role.kind digest) := by
  cases role with
  | effect =>
    obtain ⟨hobject, hkind⟩ := object_of_parseEffect graph.isEffect
    exact exists_describe_of_kind hhash hobject hkind
  | result =>
    obtain ⟨d, hd, hkind⟩ := exists_result graph.isEffect
    obtain ⟨hdigest, hform⟩ := isDigest_of_parseObjectDescriptor hd
    refine ⟨d.digest, hdigest, hd.trans ?_⟩
    rw [TransitionSubjectRole.kind, ← hkind, ← hform]
  | proposal =>
    obtain ⟨-, hproposal, -⟩ := parseProposalStatement_eq_ok_iff.mp graph.isProposal
    obtain ⟨hobject, hkind, -⟩ := object_of_parseStatement hproposal
    exact exists_describe_of_kind hhash hobject hkind

/-- The values that stand for the roles are the descriptors of the roles, in the order of the
names. -/
theorem exists_subjectDescriptors {graph : TransitionInspectionGraph}
    {digest : TransitionSubjectRole → JsString} (hrole : ∀ role,
      roleDescriptor sha256 graph role = .ok (descriptorWith role.kind (digest role)))
    (roles : List TransitionSubjectRole) : ∃ value : TransitionSubjectRole → JsValue,
      subjectDescriptors sha256 graph roles = .ok ((orderedRoles roles).map value) ∧
        ∀ role, JsValue.Same (value role) (descriptorWith role.kind (digest role)).value := by
  refine ⟨_, bind_eq_ok_iff.mpr ⟨_, hrole .effect, bind_eq_ok_iff.mpr ⟨_, hrole .proposal,
    congrArg (fun ordered => Except.ok (List.map _ ordered)) (sortBy_distinct_roles roles)⟩⟩, ?_⟩
  intro role
  cases role with
  | effect => exact .refl _
  | result => exact same_of_parseObjectDescriptor (hrole .result)
  | proposal => exact .refl _

/-- Behind one digest the descriptor of an Effect comes first, then that of a Statement. -/
theorem digestClosing_neg_iff {role role' : TransitionSubjectRole}
    (h : compareCodeUnits role.text role'.text < 0) :
    compareBytes (unitBytes (digestClosing role.kind)) (unitBytes (digestClosing role'.kind)) < 0 ↔
      role.kind = .effect ∧ role'.kind ≠ .effect := by
  revert h
  cases role <;> cases role' <;> decide

/-- The values that stand for the roles are a canonical set exactly when the digests follow the
names. -/
theorem canonicalSet_roles_iff {graph : TransitionInspectionGraph}
    {digest : TransitionSubjectRole → JsString} {value : TransitionSubjectRole → JsValue}
    (hdigest : ∀ role, IsDigest (digest role)) (hrole : ∀ role,
      roleDescriptor sha256 graph role = .ok (descriptorWith role.kind (digest role)))
    (hvalue : ∀ role, JsValue.Same (value role) (descriptorWith role.kind (digest role)).value)
    (roles : List TransitionSubjectRole) (path : JsString) :
    canonicalSet path ((orderedRoles roles).map value) = .ok () ↔
      DigestsFollowNames sha256 graph roles := by
  have hcanonical : ∀ role, Canonicalizable (value role) ∧
      bytesOf (value role) = bytesOf (descriptorWith role.kind (digest role)).value := by
    intro role
    have hequal : CanonicallyEqual (descriptorWith role.kind (digest role)).value (value role) :=
      canonicallyEqual_iff.mpr
        ⟨⟨_, canonicalProtocolBytes_descriptor _ (hdigest role)⟩, (hvalue role).symm⟩
    obtain ⟨bytes, -, hbytes⟩ := id hequal
    exact ⟨⟨bytes, hbytes⟩, (bytesOf_eq hequal).symm⟩
  have hascends : canonicalSet path ((orderedRoles roles).map value) = .ok () ↔
      Ascends compareBytes bytesOf ((orderedRoles roles).map value) := by
    refine ⟨ascends_of_canonicalSet, canonicalSet_of_ascends fun v hv => ?_⟩
    obtain ⟨role, -, rfl⟩ := List.mem_map.mp hv
    exact (hcanonical role).1
  rw [hascends, Ascends, List.pairwise_map, pairwise_orderedRoles]
  simp only [(hcanonical _).2, DigestsFollowNames, hrole, Except.ok.injEq]
  refine forall₄_congr fun role _ role' _ => forall_congr' fun hnames => ?_
  rw [compareBytes_descriptor_neg_iff _ _ (hdigest role) (hdigest role'),
    digestClosing_neg_iff hnames]
  constructor
  · rintro h _ _ rfl rfl
    exact h
  · exact fun h => h _ _ rfl rfl

/-- The values that stand for the roles are read as the descriptors of the roles. -/
theorem eachItem_roles {digest : TransitionSubjectRole → JsString}
    {value : TransitionSubjectRole → JsValue} (hdigest : ∀ role, IsDigest (digest role))
    (hvalue : ∀ role, JsValue.Same (value role) (descriptorWith role.kind (digest role)).value)
    (roles : List TransitionSubjectRole) (path : JsString) (index : ℕ) :
    eachItem parseObjectDescriptor path index (roles.map value) =
      .ok (roles.map fun role => descriptorWith role.kind (digest role)) := by
  induction roles generalizing index with
  | nil => rfl
  | cons role roles ih =>
    obtain ⟨hash, hhash, hform⟩ := hdigest role
    have hparse : parseObjectDescriptor (descriptorWith role.kind (digest role)).value
        (itemPath path index) = .ok (descriptorWith role.kind (digest role)) :=
      parseObjectDescriptor_value rfl hform hhash
    obtain ⟨d, hd, rfl⟩ := (parseObjectDescriptor_agree (hvalue role).symm).of_ok hparse
    exact bind_eq_ok_iff.mpr ⟨_, hd, bind_eq_ok_iff.mpr ⟨_, ih (index + 1), rfl⟩⟩

end

/-! ## What the parser asks for -/

/-- A type of predicates that the protocol takes. -/
def IsIdentifier (s : JsString) : Prop :=
  (codePoints s).length ≤ 256 ∧ identifierPattern s = true

/-- Whether the protocol takes a type can be tested. -/
instance : DecidablePred IsIdentifier := fun _ => inferInstanceAs (Decidable (_ ∧ _))

/-- An actor whose name the protocol takes. -/
def TransitionActorRef.IsValid (actor : TransitionActorRef) : Prop :=
  isWellFormed actor.id = true ∧ 1 ≤ (codePoints actor.id).length ∧
    (codePoints actor.id).length ≤ 512

/-- Whether the protocol takes an actor can be tested. -/
instance : DecidablePred TransitionActorRef.IsValid :=
  fun _ => inferInstanceAs (Decidable (_ ∧ _ ∧ _))

/-- A string is taken exactly when it has the length and the pattern. -/
theorem stringValue_str_eq_ok_iff {s path : JsString} {least most : ℕ}
    {pattern : JsString → Bool} :
    stringValue (.str s) path { min := least, max := some most, pattern := pattern } = .ok s ↔
      least ≤ (codePoints s).length ∧ (codePoints s).length ≤ most ∧ pattern s = true := by
  simp only [stringValue, Option.any_some, decide_eq_true_eq]
  split_ifs with hmin hmax hpattern <;> simp_all

/-- A type that matches its pattern is in the domain of the protocol. -/
theorem isWellFormed_of_identifierPattern {s : JsString} (h : identifierPattern s = true) :
    isWellFormed s = true := by
  have hunit : ∀ u : UInt16, isAlphanumeric u = true ∨ u ∈ js "._:/-" →
      isHighSurrogate u = false ∧ isLowSurrogate u = false := by
    intro u hu
    refine not_surrogate_of_lt ?_
    rcases hu with hu | hu
    · have h57 : (57 : UInt16).toNat = 57 := rfl
      have h90 : (90 : UInt16).toNat = 90 := rfl
      have h122 : (122 : UInt16).toNat = 122 := rfl
      simp only [isAlphanumeric, isDigit, Bool.or_eq_true, Bool.and_eq_true, decide_eq_true_eq,
        UInt16.le_iff_toNat_le, h57, h90, h122] at hu
      omega
    · have hmarks : IsAscii (js "._:/-") := by decide
      exact hmarks u hu
  cases s with
  | nil => rfl
  | cons u s =>
    simp only [identifierPattern, Bool.and_eq_true, List.all_eq_true, Bool.or_eq_true,
      List.contains_iff_mem] at h
    exact isWellFormed_of_plain (List.forall_mem_cons.mpr
      ⟨hunit u (.inl h.1), fun v hv => hunit v (h.2 v hv)⟩)

/-- An actor is taken exactly when its name is. -/
theorem actorRef_value_eq_ok_iff {actor : TransitionActorRef} {path : JsString} :
    actorRef actor.value path = .ok () ↔
      1 ≤ (codePoints actor.id).length ∧ (codePoints actor.id).length ≤ 512 := by
  have hkind : field [(js "kind", .str actor.kind.text), (js "id", .str actor.id)] "kind" ∈
      [JsValue.str (js "human"), .str (js "agent"), .str (js "service")] := by
    rw [field, Record.get, if_pos rfl]
    cases actor.kind <;> simp [ActorKind.text]
  have hid : field [(js "kind", .str actor.kind.text), (js "id", .str actor.id)] "id" =
      .str actor.id := rfl
  constructor
  · intro h
    obtain ⟨record, hrecord, h⟩ := bind_eq_ok_iff.mp h
    obtain ⟨hvalue, -⟩ := closedRecord_eq_ok_iff.mp hrecord
    obtain rfl := JsValue.obj.inj hvalue
    obtain ⟨-, h⟩ := refuse_eq_ok_iff.mp h
    obtain ⟨id, hstring, -⟩ := bind_eq_ok_iff.mp h
    rw [hid] at hstring
    obtain rfl := JsValue.str.inj (stringValue_eq_ok hstring).1
    exact ⟨(stringValue_str_eq_ok_iff.mp hstring).1, (stringValue_str_eq_ok_iff.mp hstring).2.1⟩
  · rintro ⟨hmin, hmax⟩
    refine bind_eq_ok_iff.mpr ⟨_, rfl, refuse_eq_ok_iff.mpr ⟨not_not.mpr hkind, ?_⟩⟩
    exact bind_eq_ok_iff.mpr
      ⟨_, stringValue_str_eq_ok_iff.mpr ⟨hmin, hmax, rfl⟩, rfl⟩

/-- A Statement of a type of its own is taken exactly when its members are. -/
theorem parseStatement_external_iff {subjects : List JsValue} {descriptors : List ObjectDescriptor}
    {actor : TransitionActorRef} {draft : TransitionExternalStatementDraft}
    (hcore : draft.predicateType ∉ corePredicateTypes)
    (hpredicate : draft.predicate.isUnicode = true) (hsubjects : subjects ≠ [])
    (hdescriptors : eachItem parseObjectDescriptor (js "$.subjects") 0 subjects = .ok descriptors)
    (hunicode : ∀ subject ∈ subjects, subject.isUnicode = true) :
    parseStatement (externalStatement subjects actor draft) =
        .ok (externalStatement subjects actor draft) ↔
      IsIdentifier draft.predicateType ∧ actor.IsValid ∧
        canonicalSet (js "$.subjects") subjects = .ok () := by
  simp only [corePredicateTypes, List.mem_cons, List.not_mem_nil, or_false, not_or] at hcore
  constructor
  · intro h
    obtain ⟨_, hdomain, h⟩ := bind_eq_ok_iff.mp h
    obtain ⟨record, hrecord, h⟩ := bind_eq_ok_iff.mp h
    obtain ⟨_, -, h⟩ := bind_eq_ok_iff.mp h
    obtain ⟨items, hitems, h⟩ := bind_eq_ok_iff.mp h
    obtain ⟨-, h⟩ := refuse_eq_ok_iff.mp h
    obtain ⟨_, -, h⟩ := bind_eq_ok_iff.mp h
    obtain ⟨_, hset, h⟩ := bind_eq_ok_iff.mp h
    obtain ⟨_, hactor, h⟩ := bind_eq_ok_iff.mp h
    obtain ⟨type, htype, -⟩ := bind_eq_ok_iff.mp h
    obtain ⟨hvalue, -⟩ := closedRecord_eq_ok_iff.mp hrecord
    obtain rfl := JsValue.obj.inj hvalue
    obtain rfl : subjects = items := Except.ok.inj hitems
    obtain rfl := JsValue.str.inj (stringValue_eq_ok htype).1
    have hmembers := JsValue.isUnicode_obj.mp (isUnicode_of_assertProtocolDomain hdomain)
    have hname := JsValue.isUnicode_obj.mp (hmembers (js "actor") actor.value rfl).2
    exact ⟨(stringValue_str_eq_ok_iff.mp htype).2, ⟨(hname (js "id") (.str actor.id) rfl).2,
      actorRef_value_eq_ok_iff.mp hactor⟩, hset⟩
  · rintro ⟨⟨hlength, hpattern⟩, ⟨hwellFormed, hactor⟩, hset⟩
    have hname : actor.value.isUnicode = true := by
      refine JsValue.isUnicode_obj.mpr fun key v hv => ?_
      have hmem := Record.mem_of_get hv
      simp only [List.mem_cons, List.not_mem_nil, or_false, Prod.mk.injEq] at hmem
      rcases hmem with ⟨rfl, rfl⟩ | ⟨rfl, rfl⟩
      · exact ⟨by decide, by cases actor.kind <;> decide⟩
      · exact ⟨by decide, hwellFormed⟩
    have hall : (externalStatement subjects actor draft).isUnicode = true := by
      refine JsValue.isUnicode_obj.mpr fun key v hv => ?_
      have hmem := Record.mem_of_get hv
      simp only [List.mem_cons, List.not_mem_nil, or_false, Prod.mk.injEq] at hmem
      rcases hmem with ⟨rfl, rfl⟩ | ⟨rfl, rfl⟩ | ⟨rfl, rfl⟩ | ⟨rfl, rfl⟩ | ⟨rfl, rfl⟩
      · exact ⟨by decide, by decide⟩
      · exact ⟨by decide, JsValue.isUnicode_arr.mpr hunicode⟩
      · exact ⟨by decide, hname⟩
      · exact ⟨by decide, isWellFormed_of_identifierPattern hpattern⟩
      · exact ⟨by decide, hpredicate⟩
    have hmin : 1 ≤ (codePoints draft.predicateType).length := by
      by_contra hnone
      rw [Nat.not_le, Nat.lt_one_iff, List.length_eq_zero_iff] at hnone
      have hempty := flatMap_pointUnits_codePoints draft.predicateType
      rw [hnone, List.flatMap_nil] at hempty
      rw [← hempty] at hpattern
      exact absurd hpattern (by decide)
    refine bind_eq_ok_iff.mpr ⟨(), assertProtocolDomain_of_isUnicode hall, ?_⟩
    refine bind_eq_ok_iff.mpr ⟨_, rfl, bind_eq_ok_iff.mpr ⟨(), if_pos rfl, ?_⟩⟩
    refine bind_eq_ok_iff.mpr ⟨subjects, rfl, refuse_eq_ok_iff.mpr ⟨by simpa using hsubjects, ?_⟩⟩
    refine bind_eq_ok_iff.mpr ⟨descriptors, hdescriptors, bind_eq_ok_iff.mpr ⟨(), hset, ?_⟩⟩
    refine bind_eq_ok_iff.mpr ⟨(), actorRef_value_eq_ok_iff.mpr hactor, ?_⟩
    refine bind_eq_ok_iff.mpr ⟨draft.predicateType,
      stringValue_str_eq_ok_iff.mpr ⟨hmin, hlength, hpattern⟩, ?_⟩
    refine (if_neg hcore.1).trans ((if_neg hcore.2).trans ?_)
    exact bind_eq_ok_iff.mpr ⟨(), assertProtocolDomain_of_isUnicode hpredicate, rfl⟩

/-! ## The command -/

/-- A computation with another error is good exactly when it is. -/
theorem mapError_eq_ok_iff {E E' T : Type} {x : Except E T} {f : E → E'} {a : T} :
    x.mapError f = .ok a ↔ x = .ok a := by
  cases x <;> simp [Except.mapError]

section

variable {sha256 : List UInt8 → JsString}

/-- The descriptors of some roles are the subjects of a Statement with them. -/
theorem subjectsAre_of_eachItem {graph : TransitionInspectionGraph}
    {digest : TransitionSubjectRole → JsString} (hrole : ∀ role,
      roleDescriptor sha256 graph role = .ok (descriptorWith role.kind (digest role)))
    {roles : List TransitionSubjectRole} {statement : JsValue}
    (h : eachItem parseObjectDescriptor (js "$.subjects") 0 (parts statement "subjects") =
      .ok ((orderedRoles roles).map fun role => descriptorWith role.kind (digest role))) :
    SubjectsAre sha256 graph roles statement := by
  have hkinds : ∀ role role' : TransitionSubjectRole, role.kind = role'.kind → role = role' := by
    intro role role'
    cases role <;> cases role' <;> decide
  refine ⟨_, h, (nodup_orderedRoles roles).map ?_, fun d => ?_⟩
  · exact fun role role' heq => hkinds role role' (congrArg ObjectDescriptor.kind heq)
  · simp only [List.mem_map, mem_orderedRoles, hrole, Except.ok.injEq]

/-- What an external Statement takes to be built: an identifier, a valid actor, and descriptors
that are a canonical set. -/
theorem buildable_iff_canonicalSet {graph : TransitionInspectionGraph} {actor : TransitionActorRef}
    {draft : TransitionExternalStatementDraft} {allowed : List JsString}
    {providerAllowed : Option (List JsString)} {digest : TransitionSubjectRole → JsString}
    {value : TransitionSubjectRole → JsValue} (hdigest : ∀ role, IsDigest (digest role))
    (hrole : ∀ role,
      roleDescriptor sha256 graph role = .ok (descriptorWith role.kind (digest role)))
    (hvalues : subjectDescriptors sha256 graph draft.subjects =
      .ok ((orderedRoles draft.subjects).map value))
    (hvalue : ∀ role, JsValue.Same (value role) (descriptorWith role.kind (digest role)).value)
    (hallowed : assertExternalPredicate draft.predicateType allowed providerAllowed = .ok ())
    (hsubjects : draft.subjects ≠ []) (hpredicate : Canonicalizable draft.predicate) :
    Buildable sha256 graph actor draft allowed providerAllowed ↔
      IsIdentifier draft.predicateType ∧ actor.IsValid ∧
        canonicalSet (js "$.subjects") ((orderedRoles draft.subjects).map value) = .ok () := by
  have hcore : draft.predicateType ∉ corePredicateTypes := by
    intro hmem
    rw [assertExternalPredicate, List.contains_iff_mem.mpr hmem, Bool.true_or, Bool.true_or,
      Bool.true_or, if_pos rfl] at hallowed
    cases hallowed
  obtain ⟨bytes, hbytes⟩ := hpredicate
  obtain ⟨text, htext, -⟩ := canonicalProtocolBytes_eq_ok_iff.mp hbytes
  have hordered : (orderedRoles draft.subjects).map value ≠ [] := by
    obtain ⟨role, hmem⟩ := List.exists_mem_of_ne_nil _ hsubjects
    exact List.ne_nil_of_mem (List.mem_map_of_mem (mem_orderedRoles.mpr hmem))
  have hread := eachItem_roles hdigest hvalue (orderedRoles draft.subjects) (js "$.subjects") 0
  have hunicode : ∀ subject ∈ (orderedRoles draft.subjects).map value,
      subject.isUnicode = true := by
    intro subject hmem
    obtain ⟨role, -, rfl⟩ := List.mem_map.mp hmem
    obtain ⟨hash, hhash, hform⟩ := hdigest role
    exact (JsValue.isUnicode_congr (hvalue role)).trans (isUnicode_descriptor rfl hform hhash)
  rw [← parseStatement_external_iff hcore (exists_canonicalJson_iff.mp ⟨text, htext⟩) hordered hread
      hunicode]
  constructor
  · rintro ⟨statement, hcreate, -⟩
    obtain ⟨_, -, hcreate⟩ := bind_eq_ok_iff.mp hcreate
    obtain ⟨-, hcreate⟩ := refuse_eq_ok_iff.mp hcreate
    obtain ⟨subjects, hsubjects, hcreate⟩ := bind_eq_ok_iff.mp hcreate
    obtain rfl := Except.ok.inj (hvalues.symm.trans (mapError_eq_ok_iff.mp hsubjects))
    have hstatement := mapError_eq_ok_iff.mp hcreate
    obtain rfl := parseStatement_returns _ _ hstatement
    exact hstatement
  · intro hstatement
    refine ⟨_, bind_eq_ok_iff.mpr ⟨(), hallowed, refuse_eq_ok_iff.mpr
      ⟨by simpa using hsubjects, bind_eq_ok_iff.mpr ⟨_, mapError_eq_ok_iff.mpr hvalues,
        mapError_eq_ok_iff.mpr hstatement⟩⟩⟩, ?_⟩
    exact subjectsAre_of_eachItem hrole hread

/-- An external Statement can be built for a selection of roles exactly when the protocol takes
the type and the actor and the digests of the roles follow their names. -/
theorem buildable_iff (hhash : ∀ input, IsHashText (sha256 input))
    (graph : TransitionInspectionGraph) (actor : TransitionActorRef)
    (draft : TransitionExternalStatementDraft) (allowed : List JsString)
    (providerAllowed : Option (List JsString))
    (hallowed : assertExternalPredicate draft.predicateType allowed providerAllowed = .ok ())
    (hsubjects : draft.subjects ≠ []) (hpredicate : Canonicalizable draft.predicate) :
    Buildable sha256 graph actor draft allowed providerAllowed ↔
      IsIdentifier draft.predicateType ∧ actor.IsValid ∧
        DigestsFollowNames sha256 graph draft.subjects := by
  choose digest hdigest hrole using exists_roleDescriptor hhash graph
  obtain ⟨value, hvalues, hvalue⟩ := exists_subjectDescriptors hrole draft.subjects
  rw [buildable_iff_canonicalSet hdigest hrole hvalues hvalue hallowed hsubjects hpredicate,
    canonicalSet_roles_iff hdigest hrole hvalue]

end

/-! ## An Effect whose digest follows that of its Result -/

/-- The graph of an Effect and its Proposal. -/
def mergeGraph : TransitionInspectionGraph where
  effect := mergeEffect
  proposal := mergeProposal
  isEffect := parseOfKind_of_parse .effect (parse_mergeEffect mergeEvaluated) rfl
  isProposal := parseProposalStatement_eq_ok_iff.mpr
    ⟨rfl, parseOfKind_of_parse .statement (parse_mergeProposal mergeEvaluated) rfl, rfl⟩

/-- A reviewer. -/
def reviewer : TransitionActorRef := ⟨.human, js "reviewer"⟩

/-- A type of predicates of the reviewer. -/
def reviewType : JsString := js "example.com/review/v1"

/-- A review without content of some roles. -/
def reviewDraft (subjects : List TransitionSubjectRole) : TransitionExternalStatementDraft :=
  ⟨reviewType, .obj [], subjects⟩

/-- Every hash of the objects is a hash text. -/
theorem isHashText_mergeHash (input : List UInt8) : IsHashText (mergeHash input) := by
  have hall := isHashText_merge mergeEvaluated
  unfold mergeHash
  split_ifs
  all_goals exact hall _ (by simp)

/-- The descriptors of the roles in the graph. -/
theorem roleDescriptor_mergeGraph :
    roleDescriptor mergeHash mergeGraph .effect = .ok (descriptorOf .effect mergeEffectHash) ∧
      roleDescriptor mergeHash mergeGraph .result = .ok (descriptorOf .state emptyStateHash) ∧
      roleDescriptor mergeHash mergeGraph .proposal =
        .ok (descriptorOf .statement mergeProposalHash) :=
  ⟨describe_of_hash (parse_mergeEffect mergeEvaluated) rfl (if_pos rfl),
    parse_descriptorValue (isHashText_merge mergeEvaluated _ (by simp)),
    describe_of_hash (parse_mergeProposal mergeEvaluated) rfl
      (mergeHash_mergeProposal mergeEvaluated)⟩

/-- The review has a type and a predicate that the endpoint takes. -/
theorem reviewDraft_allowed (subjects : List TransitionSubjectRole) :
    assertExternalPredicate (reviewDraft subjects).predicateType [reviewType] none = .ok () ∧
      Canonicalizable (reviewDraft subjects).predicate := by
  obtain ⟨text, htext⟩ := exists_canonicalJson_iff.mpr
    (show (JsValue.obj []).isUnicode = true by decide)
  refine ⟨if_neg ?_, ⟨_, canonicalProtocolBytes_eq_ok_iff.mpr ⟨text, htext, rfl⟩⟩⟩
  have hcore : reviewType ∉ corePredicateTypes := by decide
  have hreplay : reviewType ≠ replayPredicateType := by decide
  simp [reviewDraft, hcore, hreplay]

/-- The review can be built where the digests follow the names. -/
theorem buildable_effect_proposal :
    Buildable mergeHash mergeGraph reviewer (reviewDraft [.proposal, .effect]) [reviewType]
      none := by
  obtain ⟨hallowed, hpredicate⟩ := reviewDraft_allowed [.proposal, .effect]
  refine (buildable_iff isHashText_mergeHash mergeGraph reviewer _ _ _ hallowed
    (by simp [reviewDraft]) hpredicate).mpr ⟨by decide, by decide, ?_⟩
  obtain ⟨heffect, -, hproposal⟩ := roleDescriptor_mergeGraph
  refine pairwise_orderedRoles.mp (List.pairwise_pair.mpr fun d d' hd hd' => ?_)
  obtain rfl := Except.ok.inj (heffect.symm.trans hd)
  obtain rfl := Except.ok.inj (hproposal.symm.trans hd')
  exact .inl (by decide)

/-- The Effect has a greater digest than its Result, so no Statement can be about both. -/
theorem not_buildable_effect_result :
    (∀ input, IsHashText (mergeHash input)) ∧
      assertExternalPredicate reviewType [reviewType] none = .ok () ∧
      Canonicalizable (reviewDraft [.effect, .result]).predicate ∧
      ¬ Buildable mergeHash mergeGraph reviewer (reviewDraft [.effect, .result]) [reviewType]
        none := by
  obtain ⟨hallowed, hpredicate⟩ := reviewDraft_allowed [.effect, .result]
  refine ⟨isHashText_mergeHash, hallowed, hpredicate, fun hbuild => ?_⟩
  choose digest hdigest hrole using exists_roleDescriptor isHashText_mergeHash mergeGraph
  obtain ⟨value, hvalues, hvalue⟩ := exists_subjectDescriptors hrole [.effect, .result]
  obtain ⟨-, -, hset⟩ := (buildable_iff_canonicalSet hdigest hrole hvalues hvalue hallowed
    (by simp [reviewDraft]) hpredicate).mp hbuild
  have hfollow := (canonicalSet_roles_iff hdigest hrole hvalue _ _).mp hset
  obtain ⟨heffect, hresult, -⟩ := roleDescriptor_mergeGraph
  have hprecedes := hfollow .effect (by simp [reviewDraft]) .result (by simp [reviewDraft])
    (by decide) _ _ heffect hresult
  exact absurd hprecedes (by decide)

end T3x.Transition
