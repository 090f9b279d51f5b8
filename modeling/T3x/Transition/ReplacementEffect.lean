import T3x.Transition.Descriptors
import T3x.Transition.Replacement

/-!
# The Effect of a replacement

The operations of a replacement are copied on their way: into the Effect, out of
it, and by the schema library each time they are parsed. Every copy is a form of
the operation, so the Effect is made, and its replay gives the target.
-/

namespace T3x.Transition

open Js Yops T3x.Run

/-! ## Copies of the operations -/

/-- The schema library returns a copy of every form of an operation. -/
def Copies (parsedData : JsValue → JsValue) (op : JsValue) : Prop :=
  ∀ form, JsValue.Same form op → JsValue.Same (parsedData form) op

/-- Forms of forms are forms. -/
theorem forall₂_same_trans {as bs cs : List JsValue} (hab : List.Forall₂ JsValue.Same as bs)
    (hbc : List.Forall₂ JsValue.Same bs cs) : List.Forall₂ JsValue.Same as cs := by
  induction hab generalizing cs with
  | nil => exact hbc
  | cons h _ ih =>
    cases hbc with
    | cons h' hrest => exact .cons (h.trans h') (ih hrest)

/-- Arrays of forms are the same. -/
theorem same_arr {as bs : List JsValue} (h : List.Forall₂ JsValue.Same as bs) :
    JsValue.Same (.arr as) (.arr bs) := by
  unfold JsValue.Same
  rw [JsValue.denote_arr, JsValue.denote_arr]
  refine congrArg Doc.arr ?_
  induction h with
  | nil => rfl
  | cons h _ ih => exact congrArg₂ List.cons h ih

section

variable {sha256 : List UInt8 → JsString} {canonicalSpec : JsString}
  {issueMessage : JsValue → JsString} {parsedData : JsValue → JsValue}
  {ops forms : List JsValue}

/-- Operations without a source that the schema takes are parsed. -/
theorem parseOperations_eq_ok (index : ℕ)
    (h : ∀ form ∈ forms, form.hasMember "source" = false ∧ yOpSchema form = true) :
    parseOperations issueMessage parsedData index forms = .ok (forms.map parsedData) := by
  induction forms generalizing index with
  | nil => rfl
  | cons form forms ih =>
    obtain ⟨⟨hsource, hschema⟩, hrest⟩ := List.forall_mem_cons.mp h
    refine refuse_eq_ok_iff.mpr ⟨by rw [hsource]; exact Bool.false_ne_true, ?_⟩
    refine refuse_eq_ok_iff.mpr ⟨by rw [hschema]; nofun, ?_⟩
    exact bind_eq_ok_iff.mpr ⟨_, ih (index + 1) hrest, rfl⟩

/-- What a form of primitive operations has, each of its items has. -/
theorem forms_of_isPrimitive {P : JsValue → Prop} (hforms : List.Forall₂ JsValue.Same forms ops)
    (h : ∀ op ∈ ops, ∀ form, JsValue.Same form op → P form) : ∀ form ∈ forms, P form := by
  induction hforms with
  | nil => exact fun _ hform => absurd hform List.not_mem_nil
  | cons hsame _ ih =>
    obtain ⟨hop, hrest⟩ := List.forall_mem_cons.mp h
    exact List.forall_mem_cons.mpr ⟨hop _ hsame, ih hrest⟩

/-- Forms of primitive operations are parsed to forms of them. -/
theorem parseOperations_of_isPrimitive (issueMessage : JsValue → JsString)
    (hforms : List.Forall₂ JsValue.Same forms ops)
    (hops : ∀ op ∈ ops, IsPrimitive op) (hcopies : ∀ op ∈ ops, Copies parsedData op) :
    parseOperations issueMessage parsedData 0 forms = .ok (forms.map parsedData) ∧
      List.Forall₂ JsValue.Same (forms.map parsedData) ops := by
  refine ⟨parseOperations_eq_ok 0 (forms_of_isPrimitive hforms fun op hop form hform =>
    ⟨(hops op hop).unsourced form hform, (hops op hop).accepted form hform⟩), ?_⟩
  rw [List.forall₂_map_left_iff]
  induction hforms with
  | nil => exact .nil
  | cons hsame _ ih =>
    obtain ⟨hcopy, hrest⟩ := List.forall_mem_cons.mp hcopies
    exact .cons (hcopy _ hsame) (ih (List.forall_mem_cons.mp hops).2 hrest)

/-- Forms of operations in the domain of the protocol are normalized to forms of them. -/
theorem normalize_forms (hforms : List.Forall₂ JsValue.Same forms ops)
    (hunicode : ∀ op ∈ ops, op.isUnicode = true) :
    normalizeProtocolValue (.arr forms) = .ok (.arr (forms.map canonicalClone)) ∧
      List.Forall₂ JsValue.Same (forms.map canonicalClone) ops := by
  refine ⟨?_, forall₂_same_trans (forall₂_canonicalClone forms) hforms⟩
  rw [← canonicalClone_arr]
  refine normalizeProtocolValue_of_isUnicode ?_
  rw [JsValue.isUnicode_congr (same_arr hforms)]
  exact JsValue.isUnicode_arr.mpr hunicode

end

/-! ## The parts of the Effect -/

section

variable {sha256 : List UInt8 → JsString} {canonicalSpec : JsString}
  {issueMessage : JsValue → JsString} {parsedData : JsValue → JsValue}

/-- States of the same value are the same. -/
theorem yopsState_same {value value' : JsValue} (h : JsValue.Same value value') :
    JsValue.Same (yopsState value) (yopsState value') := by
  refine JsValue.denote_obj_eq_iff.mpr fun key => ?_
  simp only [Record.get]
  split_ifs
  · rfl
  · rfl
  · exact congrArg some h
  · rfl

/-- The members of a reference to the driver are in the domain of the protocol. -/
theorem isUnicode_yopsMutationDriverRef (hhash : ∀ input, IsHashText (sha256 input)) :
    (yopsMutationDriverRef sha256 canonicalSpec).isUnicode = true := by
  refine JsValue.isUnicode_obj.mpr fun key v hv => ?_
  have hmem := Record.mem_of_get hv
  simp only [List.mem_cons, List.not_mem_nil, or_false, Prod.mk.injEq] at hmem
  rcases hmem with ⟨rfl, rfl⟩ | ⟨rfl, rfl⟩ | ⟨rfl, rfl⟩
  · exact ⟨by decide, by decide⟩
  · exact ⟨by decide, by decide⟩
  · exact ⟨by decide, isWellFormed_digest (hhash _)⟩

/-- The reference to the driver is one. -/
theorem mutationDriverRef_yops (hhash : ∀ input, IsHashText (sha256 input)) (path : JsString) :
    mutationDriverRef (yopsMutationDriverRef sha256 canonicalSpec) path = .ok () := by
  have hprotocol : ∀ place, identifier (.str (js "t3x.dev/yops")) place = .ok (js "t3x.dev/yops") :=
    fun place => by
      have hpattern : identifierPattern (js "t3x.dev/yops") = true := by decide
      simp only [identifier, stringValue, hpattern]
      rfl
  have hversion : ∀ place, identifier (.str (js "1")) place = .ok (js "1") := fun place => by
    have hpattern : identifierPattern (js "1") = true := by decide
    simp only [identifier, stringValue, hpattern]
    rfl
  refine bind_eq_ok_iff.mpr ⟨_, rfl, bind_eq_ok_iff.mpr ⟨_, hprotocol _, ?_⟩⟩
  refine bind_eq_ok_iff.mpr ⟨_, hversion _, bind_eq_ok_iff.mpr
    ⟨yopsSpecDigest sha256 canonicalSpec, ?_, rfl⟩⟩
  exact stringValue_str (digestPattern_of_isHashText (hhash _))

/-- Items in the domain of the protocol are checked to be so. -/
theorem eachItem_assertProtocolDomain {items : List JsValue} (path : JsString) (index : ℕ)
    (h : ∀ item ∈ items, item.isUnicode = true) :
    ∃ units, eachItem (fun item _ => assertProtocolDomain item) path index items = .ok units := by
  induction items generalizing index with
  | nil => exact ⟨[], rfl⟩
  | cons item items ih =>
    obtain ⟨hitem, hrest⟩ := List.forall_mem_cons.mp h
    obtain ⟨units, hunits⟩ := ih (index + 1) hrest
    exact ⟨() :: units, bind_eq_ok_iff.mpr ⟨(), assertProtocolDomain_of_isUnicode hitem,
      bind_eq_ok_iff.mpr ⟨units, hunits, rfl⟩⟩⟩

/-- Operations in the domain of the protocol have a definition. -/
theorem parseEffectDefinition_yops (hhash : ∀ input, IsHashText (sha256 input))
    {items : List JsValue} (hitems : ∀ item ∈ items, item.isUnicode = true) :
    parseEffectDefinition (yopsDefinition sha256 canonicalSpec (.arr items)) =
      .ok (yopsDefinition sha256 canonicalSpec (.arr items)) := by
  have hunicode : (yopsDefinition sha256 canonicalSpec (.arr items)).isUnicode = true := by
    refine JsValue.isUnicode_obj.mpr fun key v hv => ?_
    have hmem := Record.mem_of_get hv
    simp only [List.mem_cons, List.not_mem_nil, or_false, Prod.mk.injEq] at hmem
    rcases hmem with ⟨rfl, rfl⟩ | ⟨rfl, rfl⟩ | ⟨rfl, rfl⟩
    · exact ⟨by decide, isUnicode_yopsMutationDriverRef hhash⟩
    · exact ⟨by decide, JsValue.isUnicode_arr.mpr hitems⟩
    · exact ⟨by decide, by decide⟩
  obtain ⟨units, hunits⟩ := eachItem_assertProtocolDomain (js "$.operations") 0 hitems
  refine bind_eq_ok_iff.mpr ⟨(), assertProtocolDomain_of_isUnicode hunicode, ?_⟩
  refine bind_eq_ok_iff.mpr ⟨_, rfl, bind_eq_ok_iff.mpr ⟨(), mutationDriverRef_yops hhash _, ?_⟩⟩
  refine bind_eq_ok_iff.mpr ⟨items, rfl, bind_eq_ok_iff.mpr ⟨units, hunits, ?_⟩⟩
  exact bind_eq_ok_iff.mpr ⟨[], rfl, bind_eq_ok_iff.mpr ⟨(), rfl, rfl⟩⟩

/-- The Effect with operations and the descriptors of two States. -/
def yopsEffect (sha256 : List UInt8 → JsString) (canonicalSpec : JsString) (operations : JsValue)
    (base result : ObjectDescriptor) : JsValue :=
  .obj [(js "schema", .str effectSchema), (js "driver", yopsMutationDriverRef sha256 canonicalSpec),
    (js "operations", operations), (js "inputs", .arr []), (js "base", base.value),
    (js "result", result.value)]

/-- A descriptor of a State with a hash as its digest. -/
def IsStateDescriptor (d : ObjectDescriptor) : Prop :=
  d.kind = .state ∧ d.schema = stateSchema ∧ IsDigest d.digest

/-- A descriptor of a State reads back. -/
theorem IsStateDescriptor.reads {d : ObjectDescriptor} (h : IsStateDescriptor d)
    (path : JsString) : descriptorOfKind .state d.value path = .ok d ∧
      d.value.isUnicode = true := by
  obtain ⟨hkind, hschema, hash, hhash, hdigest⟩ := h
  have hexpected : d.schema = expectedSchema d.kind := by rw [hkind, hschema]; rfl
  refine ⟨bind_eq_ok_iff.mpr ⟨d, parseObjectDescriptor_value hexpected hdigest hhash, ?_⟩,
    isUnicode_descriptor hexpected hdigest hhash⟩
  exact refuse_eq_ok_iff.mpr ⟨not_not.mpr hkind, rfl⟩

/-- Operations in the domain of the protocol have an Effect between two States. -/
theorem parseEffect_yops (canonicalSpec : JsString) (hhash : ∀ input, IsHashText (sha256 input))
    {items : List JsValue} (hitems : ∀ item ∈ items, item.isUnicode = true) {base result : ObjectDescriptor}
    (hbase : IsStateDescriptor base) (hresult : IsStateDescriptor result) :
    parseEffect (yopsEffect sha256 canonicalSpec (.arr items) base result) =
      .ok (yopsEffect sha256 canonicalSpec (.arr items) base result) := by
  have hunicode : (yopsEffect sha256 canonicalSpec (.arr items) base result).isUnicode = true := by
    refine JsValue.isUnicode_obj.mpr fun key v hv => ?_
    have hmem := Record.mem_of_get hv
    simp only [List.mem_cons, List.not_mem_nil, or_false, Prod.mk.injEq] at hmem
    rcases hmem with ⟨rfl, rfl⟩ | ⟨rfl, rfl⟩ | ⟨rfl, rfl⟩ | ⟨rfl, rfl⟩ | ⟨rfl, rfl⟩ | ⟨rfl, rfl⟩
    · exact ⟨by decide, by decide⟩
    · exact ⟨by decide, isUnicode_yopsMutationDriverRef hhash⟩
    · exact ⟨by decide, JsValue.isUnicode_arr.mpr hitems⟩
    · exact ⟨by decide, by decide⟩
    · exact ⟨by decide, (hbase.reads []).2⟩
    · exact ⟨by decide, (hresult.reads []).2⟩
  refine bind_eq_ok_iff.mpr ⟨(), assertProtocolDomain_of_isUnicode hunicode, ?_⟩
  refine bind_eq_ok_iff.mpr ⟨_, rfl, bind_eq_ok_iff.mpr ⟨(), if_pos rfl, ?_⟩⟩
  refine bind_eq_ok_iff.mpr ⟨base, (hbase.reads _).1, ?_⟩
  refine bind_eq_ok_iff.mpr ⟨_, parseEffectDefinition_yops hhash hitems, ?_⟩
  exact bind_eq_ok_iff.mpr ⟨result, (hresult.reads _).1, rfl⟩

/-- The definition in an Effect. -/
theorem definitionOf_yops {items : List JsValue} {base result : ObjectDescriptor}
    (h : parseEffect (yopsEffect sha256 canonicalSpec (.arr items) base result) =
      .ok (yopsEffect sha256 canonicalSpec (.arr items) base result)) :
    definitionOf (yopsEffect sha256 canonicalSpec (.arr items) base result) =
      .ok (yopsDefinition sha256 canonicalSpec (.arr items)) :=
  bind_eq_ok_iff.mpr ⟨_, h, rfl⟩

end

/-! ## The replay -/

section

variable {sha256 : List UInt8 → JsString} {canonicalSpec : JsString}
  {issueMessage : JsValue → JsString} {parsedData : JsValue → JsValue}
  {base target : JsValue} {baseValue targetValue : Record JsValue} {ops forms : List JsValue}

/-- The driver resolves its own reference. -/
theorem resolveMutationDriver_yops :
    resolveMutationDriver (yopsMutationDrivers sha256 canonicalSpec issueMessage parsedData)
        (yopsMutationDriverRef sha256 canonicalSpec) =
      .ok (yopsMutationDriver sha256 canonicalSpec issueMessage parsedData) := by
  have hkey : referenceKey (yopsMutationDriverRef sha256 canonicalSpec) =
      (yopsMutationDriver sha256 canonicalSpec issueMessage parsedData).key := rfl
  rw [resolveMutationDriver, yopsMutationDrivers, hkey]
  simp [Record.get]

/-- The driver brings the Base to a State by the run of the operations. -/
theorem executeYOps_of_run (hcodec : assertYOpsState base = .ok ()) {operations : List JsValue}
    (hparse : parseOperations issueMessage parsedData 0 forms = .ok operations)
    {doc last : JsValue} (hdoc : normalizeProtocolValue (part base "value") = .ok doc)
    (hrun : run (applyStep issueMessage) doc operations = some last)
    (hlast : last.isUnicode = true) :
    executeYOps issueMessage parsedData base (yopsDefinition sha256 canonicalSpec (.arr forms)) [] =
      .ok (yopsState (canonicalClone last)) := by
  obtain ⟨more, hresult⟩ := applyYOps_of_run hrun
  have hclone : (canonicalClone last).isUnicode = true := by
    rwa [JsValue.isUnicode_congr (canonicalClone_same last)]
  refine bind_eq_ok_iff.mpr ⟨(), byProtocol_eq_ok_iff.mpr hcodec, ?_⟩
  refine refuse_eq_ok_iff.mpr ⟨not_or.mpr ⟨not_not.mpr rfl, not_not.mpr rfl⟩, ?_⟩
  refine bind_eq_ok_iff.mpr ⟨operations, byProtocol_eq_ok_iff.mpr hparse, ?_⟩
  refine bind_eq_ok_iff.mpr ⟨doc, byProtocol_eq_ok_iff.mpr hdoc, ?_⟩
  rw [hresult]
  refine byProtocol_eq_ok_iff.mpr (bind_eq_ok_iff.mpr ⟨canonicalClone last, ?_, ?_⟩)
  · exact normalizeProtocolValue_of_isUnicode hlast
  · exact parseState_yopsState hclone

/-- The value of a State is in the domain of the protocol. -/
theorem IsMappingState.isUnicode (h : IsMappingState base baseValue) :
    (JsValue.obj baseValue).isUnicode = true := h.value ▸ (isUnicode_of_parseState h.parses).2

/-- The replay of forms of the operations gives the target. -/
theorem replay_forms (canonicalSpec : JsString) (issueMessage : JsValue → JsString)
    (hhash : ∀ input, IsHashText (sha256 input))
    (hbase : IsMappingState base baseValue) (htarget : IsMappingState target targetValue)
    (h : Replaceable baseValue targetValue)
    (hops : replacementOperations baseValue targetValue = .ok ops)
    (hcopies : ∀ op ∈ ops, Copies parsedData op)
    (hforms : List.Forall₂ JsValue.Same forms ops) :
    ∃ result, replay sha256 base (yopsDefinition sha256 canonicalSpec (.arr forms)) []
        (yopsMutationDrivers sha256 canonicalSpec issueMessage parsedData) = .ok result ∧
      parseState result = .ok result ∧ JsValue.Same result target := by
  obtain ⟨steps, hsteps, hisStep, hprimitive⟩ :=
    exists_replacementOperations h hbase.isUnicode htarget.isUnicode
  obtain rfl := Except.ok.inj (hsteps.symm.trans hops)
  obtain ⟨hparse, hparsed⟩ := parseOperations_of_isPrimitive issueMessage hforms
    (fun op hop => (hprimitive op hop).1) hcopies
  have hdoc : normalizeProtocolValue (part base "value") =
      .ok (canonicalClone (.obj baseValue)) := by
    rw [hbase.value]
    exact normalizeProtocolValue_of_isUnicode hbase.isUnicode
  -- The document reads as the Base under the keys of the replacement, and both have no other.
  obtain ⟨map, hmap⟩ : ∃ map, canonicalClone (.obj baseValue) = .obj map := by
    rw [canonicalClone, JsValue.fold_obj]
    exact ⟨_, rfl⟩
  have hread : Record.Same map baseValue :=
    JsValue.denote_obj_eq_iff.mp (hmap ▸ canonicalClone_same (.obj baseValue))
  have hstart : ∀ key, ReadsAlike map
      (if key ∈ replacementKeys baseValue targetValue then baseValue else targetValue) key := by
    intro key
    split_ifs with hkey
    · exact hread key
    · obtain ⟨hbaseKey, htargetKey⟩ := not_or.mp (mt mem_replacementKeys.mpr hkey)
      rw [Record.has, Option.not_isSome_iff_eq_none] at hbaseKey htargetKey
      exact (hread key).trans (by rw [hbaseKey, htargetKey])
  obtain ⟨last, hrun, hlast⟩ := run_steps issueMessage h nodup_replacementKeys
    (fun _ hkey => mem_replacementKeys.mp hkey) hisStep hparsed hstart
  have hlastSame : JsValue.Same (.obj last) (.obj targetValue) := JsValue.denote_obj_eq_iff.mpr hlast
  have hlastUnicode : (JsValue.obj last).isUnicode = true := by
    rw [JsValue.isUnicode_congr hlastSame]
    exact htarget.isUnicode
  have hclone := canonicalClone_same (.obj last)
  have hstate : parseState (yopsState (canonicalClone (.obj last))) =
      .ok (yopsState (canonicalClone (.obj last))) :=
    parseState_yopsState (by rwa [JsValue.isUnicode_congr hclone])
  refine ⟨yopsState (canonicalClone (.obj last)), ?_, hstate, ?_⟩
  · refine replay_eq_ok sha256 rfl (parseEffectDefinition_yops hhash ?_) rfl
      resolveMutationDriver_yops hbase.parses ?_ hstate
    · exact forms_of_isPrimitive hforms fun op hop form hform => by
        rw [JsValue.isUnicode_congr hform]
        exact (hprimitive op hop).2
    · exact executeYOps_of_run hbase.codec hparse (hmap ▸ hdoc) hrun hlastUnicode
  · exact (yopsState_same (hclone.trans hlastSame)).trans htarget.same.symm

/-- The keys that the adapter refuses. -/
def IsRefused (baseValue targetValue : Record JsValue) (key : JsString) : Prop :=
  (Record.has baseValue key = true ∨ Record.has targetValue key = true) ∧
    (key = [] ∨ unit '/' ∈ key)

/-- A step fails only for a key that is refused, and with the error of the refusal. -/
theorem replacementStep_cases (hbase : (JsValue.obj baseValue).isUnicode = true)
    (htarget : (JsValue.obj targetValue).isUnicode = true) (key : JsString) :
    (∃ ops, replacementStep baseValue targetValue key = .ok ops ∧ ¬(key = [] ∨ unit '/' ∈ key)) ∨
      ∃ message, replacementStep baseValue targetValue key =
        .error (unsupportedSemantics message) := by
  unfold replacementStep
  split_ifs with hrefused
  · exact .inr ⟨_, rfl⟩
  · refine .inl ?_
    cases hbefore : Record.get baseValue key with
    | none => exact ⟨_, rfl, hrefused⟩
    | some before =>
      cases hafter : Record.get targetValue key with
      | none => exact ⟨_, rfl, hrefused⟩
      | some after =>
        obtain ⟨same, hsame, -⟩ := sameProtocolValue_of_isUnicode
          (JsValue.isUnicode_obj.mp hbase key before hbefore).2
          (JsValue.isUnicode_obj.mp htarget key after hafter).2
        cases same with
        | true => exact ⟨[], bind_eq_ok_iff.mpr ⟨true, hsame, rfl⟩, hrefused⟩
        | false => exact ⟨_, bind_eq_ok_iff.mpr ⟨false, hsame, rfl⟩, hrefused⟩

/-- A replacement with a root key that is refused has no operations. -/
theorem replacementOperations_of_isRefused (hbase : (JsValue.obj baseValue).isUnicode = true)
    (htarget : (JsValue.obj targetValue).isUnicode = true) {key : JsString}
    (hkey : IsRefused baseValue targetValue key) :
    ∃ message, replacementOperations baseValue targetValue =
      .error (unsupportedSemantics message) := by
  have hsteps : ∀ keys : List JsString, key ∈ keys → ∃ message,
      keys.mapM (replacementStep baseValue targetValue) =
        .error (unsupportedSemantics message) := by
    intro keys hmem
    induction keys with
    | nil => cases hmem
    | cons first keys ih =>
      rw [List.mapM_cons]
      rcases replacementStep_cases hbase htarget first with ⟨ops, hops, hnot⟩ | ⟨message, herror⟩
      · have hrest : key ∈ keys := (List.mem_cons.mp hmem).resolve_left fun h => hnot (h ▸ hkey.2)
        obtain ⟨message, hmessage⟩ := ih hrest
        exact ⟨message, by rw [hops, hmessage]; rfl⟩
      · exact ⟨message, by rw [herror]; rfl⟩
  obtain ⟨message, hmessage⟩ := hsteps _ (mem_replacementKeys.mpr hkey.1)
  exact ⟨message, by rw [replacementOperations, hmessage]; rfl⟩

/-- A replacement of the Base by the target gets an error of the protocol. -/
def Refuses (created : Adapted CreatedYOpsEffect) : Prop :=
  ∃ message, created = .error (.protocol (unsupportedSemantics message))

/-- A replacement with a root key that is refused is refused. -/
theorem refuses_of_isRefused (sha256 : List UInt8 → JsString) (canonicalSpec : JsString)
    (issueMessage : JsValue → JsString) (parsedData : JsValue → JsValue)
    (expectedBase : Option ObjectDescriptor) (hbase : IsMappingState base baseValue)
    (htarget : IsMappingState target targetValue) {key : JsString}
    (hkey : IsRefused baseValue targetValue key) : Refuses (createYOpsReplacementEffect sha256
      canonicalSpec issueMessage parsedData base target expectedBase) := by
  unfold createYOpsReplacementEffect
  rw [hbase.codec, htarget.codec, hbase.value, htarget.value]
  obtain ⟨message, hmessage⟩ :=
    replacementOperations_of_isRefused hbase.isUnicode htarget.isUnicode hkey
  refine ⟨message, ?_⟩
  dsimp only
  rw [hmessage]
  rfl

/-- The replay of the Effect that is created gives the target from the Base. -/
def Replays (sha256 : List UInt8 → JsString) (drivers : Record (MutationDriver YopsDriverError))
    (base target effect : JsValue) : Prop :=
  ∃ definition result bytes, definitionOf effect = .ok definition ∧
    replay sha256 base definition [] drivers = .ok result ∧
    canonicalProtocolObjectBytes result = .ok bytes ∧
    canonicalProtocolObjectBytes target = .ok bytes

/-- A descriptor of a State is one with a hash as its digest. -/
theorem isStateDescriptor_describe (hhash : ∀ input, IsHashText (sha256 input)) {state : JsValue}
    (h : parseState state = .ok state) :
    ∃ d, describeProtocolObject sha256 state = .ok d ∧ IsStateDescriptor d := by
  obtain ⟨d, bytes, hd, -, hkind, hschema, hdigest⟩ := exists_describe sha256 h
  exact ⟨d, hd, hkind, hschema, _, hhash _, hdigest⟩

/-- The Effect of the operations of a replacement is created, and its replay gives the target. -/
theorem createYOpsEffect_replacement (canonicalSpec : JsString)
    (issueMessage : JsValue → JsString) (hhash : ∀ input, IsHashText (sha256 input))
    (hbase : IsMappingState base baseValue) (htarget : IsMappingState target targetValue)
    (h : Replaceable baseValue targetValue)
    (hops : replacementOperations baseValue targetValue = .ok ops)
    (hcopies : ∀ op ∈ ops, Copies parsedData op) {expectedBase : Option ObjectDescriptor}
    (hexpected : ∀ d ∈ expectedBase, describeProtocolObject sha256 base = .ok d) :
    ∃ created, createYOpsEffect sha256 canonicalSpec issueMessage parsedData base ops expectedBase =
        .ok created ∧ JsValue.Same created.result target ∧
      Replays sha256 (yopsMutationDrivers sha256 canonicalSpec issueMessage parsedData) base target
        created.effect := by
  obtain ⟨steps, hsteps, -, hprimitive⟩ :=
    exists_replacementOperations h hbase.isUnicode htarget.isUnicode
  obtain rfl := Except.ok.inj (hsteps.symm.trans hops)
  have hunicode : ∀ op ∈ steps.flatten, op.isUnicode = true := fun op hop => (hprimitive op hop).2
  -- The operations are normalized, parsed, retained and normalized again.
  obtain ⟨hcaller, hcallerSame⟩ := normalize_forms (List.forall₂_same.mpr fun op _ => rfl) hunicode
  obtain ⟨hparse, hparsed⟩ := parseOperations_of_isPrimitive issueMessage hcallerSame
    (fun op hop => (hprimitive op hop).1) hcopies
  have hretained : ∀ doc, compileYOpsOperationsToPrimitiveProfile issueMessage doc
      ((steps.flatten.map canonicalClone).map parsedData) =
        (steps.flatten.map canonicalClone).map parsedData := fun doc =>
    compile_of_expansionOf issueMessage (forms_of_isPrimitive hparsed fun op hop form hform =>
      (hprimitive op hop).1.retained form hform)
  obtain ⟨hcompiled, hcompiledSame⟩ := normalize_forms hparsed hunicode
  obtain ⟨result, hreplay, hresult, hsame⟩ := replay_forms canonicalSpec issueMessage hhash hbase
    htarget h hops hcopies hcompiledSame
  obtain ⟨baseDescriptor, hbaseDescriptor, hbaseState⟩ :=
    isStateDescriptor_describe hhash hbase.parses
  obtain ⟨resultDescriptor, hresultDescriptor, hresultState⟩ :=
    isStateDescriptor_describe hhash hresult
  obtain ⟨_, bytes, -, hbytes, -⟩ := exists_describe sha256 htarget.parses
  have hitems := forms_of_isPrimitive (P := fun form => form.isUnicode = true) hcompiledSame
    fun op hop form hform => by
      rw [JsValue.isUnicode_congr hform]
      exact hunicode op hop
  have heffect := parseEffect_yops canonicalSpec hhash hitems hbaseState hresultState
  refine ⟨⟨_, result⟩, ?_, hsame, _, result, bytes, definitionOf_yops heffect, hreplay,
    canonicalProtocolObjectBytes_congr hsame.symm hbytes, hbytes⟩
  refine bind_eq_ok_iff.mpr ⟨baseDescriptor, byProtocol_eq_ok_iff.mpr hbaseDescriptor, ?_⟩
  refine refuse_eq_ok_iff.mpr ⟨?_, ?_⟩
  · rw [Option.any_eq_true]
    rintro ⟨expected, hmem, hne⟩
    have := hexpected expected hmem
    simp_all
  refine bind_eq_ok_iff.mpr ⟨(), byProtocol_eq_ok_iff.mpr hbase.codec, ?_⟩
  refine bind_eq_ok_iff.mpr ⟨_, byProtocol_eq_ok_iff.mpr hcaller, ?_⟩
  refine bind_eq_ok_iff.mpr ⟨_, byProtocol_eq_ok_iff.mpr hparse, ?_⟩
  refine bind_eq_ok_iff.mpr ⟨_, byProtocol_eq_ok_iff.mpr
    (hbase.value ▸ normalizeProtocolValue_of_isUnicode hbase.isUnicode), ?_⟩
  rw [hretained]
  refine bind_eq_ok_iff.mpr ⟨_, byProtocol_eq_ok_iff.mpr hcompiled, ?_⟩
  refine bind_eq_ok_iff.mpr ⟨result, by rw [hreplay]; rfl, ?_⟩
  refine bind_eq_ok_iff.mpr ⟨resultDescriptor, byProtocol_eq_ok_iff.mpr hresultDescriptor, ?_⟩
  exact bind_eq_ok_iff.mpr ⟨_, byProtocol_eq_ok_iff.mpr heffect, rfl⟩

end

/-- A hash of the right form. -/
def zeroHash : List UInt8 → JsString := fun _ => List.replicate 64 (unit '0')

/-- The digits of the hash. -/
theorem isHashText_zeroHash (input : List UInt8) : IsHashText (zeroHash input) := by
  refine ⟨List.length_replicate, fun u hu => ?_⟩
  rw [List.eq_of_mem_replicate hu]
  decide

/-- The State of a mapping in the domain of the protocol. -/
theorem isMappingState_yopsState {members : Record JsValue}
    (h : (JsValue.obj members).isUnicode = true) :
    IsMappingState (yopsState (.obj members)) members where
  parses := parseState_yopsState h
  codec := if_neg (not_or.mpr ⟨not_not.mpr rfl, not_not.mpr rfl⟩)
  value := rfl

/-- A root key that changes is one of the Base or of the target. -/
theorem has_of_not_readsAlike {base target : Record JsValue} {key : JsString}
    (h : ¬ReadsAlike base target key) :
    Record.has base key = true ∨ Record.has target key = true := by
  by_contra hnot
  obtain ⟨hbase, htarget⟩ := not_or.mp hnot
  rw [Record.has, Option.not_isSome_iff_eq_none] at hbase htarget
  exact h (by rw [ReadsAlike, hbase, htarget])

end T3x.Transition
