import T3x.Yops.Preflight

/-!
# What the validator misses

An operation that reaches its handler is one that the schema takes and whose
paths parse. The validator reports an error for every other operation, but for
those whose only fault is an optional member of their source; and it throws
where an operation with a mapping as its payload goes by a name that every
object inherits.
-/

namespace T3x.Yops

open Js

/-! ## The schema and the name of an operation -/

/-- An operation of the specification is found under its name, with a handler. -/
theorem getOpSpec_of_mem {spec : OpSpec} (h : spec ∈ operations) :
    getOpSpec (js spec.name) = some spec ∧ ∃ handler, getHandler (js spec.name) = some handler := by
  have hall : ∀ spec ∈ operations, getOpSpec (js spec.name) = some spec ∧
      (getHandler (js spec.name)).isSome = true := by decide
  exact ⟨(hall spec h).1, Option.isSome_iff_exists.mp (hall spec h).2⟩

/-- What is found under a name is an operation of the specification with that name. -/
theorem mem_of_getOpSpec {opName : JsString} {spec : OpSpec} (h : getOpSpec opName = some spec) :
    spec ∈ operations ∧ js spec.name = opName :=
  ⟨List.mem_of_find?_eq_some h, by simpa using List.find?_some h⟩

/-- An operation whose outer keys are its name and the metadata goes by its name. -/
theorem resolveOpName_of_keys {op : Record JsValue} {opName : JsString}
    (hkeys : ∀ key ∈ Record.keys op, key = opName ∨ key = js "source")
    (hmem : opName ∈ Record.keys op) (hne : opName ≠ js "source") :
    resolveOpName op = some opName := by
  unfold resolveOpName
  cases hfind : (Record.keys op).find? fun key => decide (key ≠ js "source") with
  | none =>
    have hnone := List.find?_eq_none.mp hfind opName hmem
    simp [hne] at hnone
  | some key =>
    have hkey : key ≠ js "source" := by simpa using List.find?_some hfind
    exact congrArg some ((hkeys key (List.mem_of_find?_eq_some hfind)).resolve_right hkey)

/-- The name of an operation is one of its outer keys and no metadata. -/
theorem resolveOpName_spec {op : Record JsValue} {opName : JsString}
    (h : resolveOpName op = some opName) : opName ∈ Record.keys op ∧ opName ≠ js "source" :=
  ⟨List.mem_of_find?_eq_some h, by simpa using List.find?_some h⟩

/-- What the schema asks of an operation: an operation of the specification, no other
outer keys, a payload that is right and a source that is. -/
structure Fits (source : Shape) (op : Record JsValue) (spec : OpSpec) (payload : Record JsValue) :
    Prop where
  /-- The operation is in the specification. -/
  known : spec ∈ operations
  /-- It goes by its name. -/
  name : resolveOpName op = some (js spec.name)
  /-- It has no other outer keys. -/
  keys : ∀ key ∈ Record.keys op, key = js spec.name ∨ key = js "source"
  /-- Its payload is a mapping. -/
  body : Record.get op (js spec.name) = some (.obj payload)
  /-- The payload is right. -/
  right : ∃ fields, (spec, fields) ∈ operations.zip (payloadFields.map Prod.snd) ∧
    Shape.closed fields (.obj payload) = true ∧
      payloadRefinement spec.name (.obj payload) = true
  /-- The source is right. -/
  origin : ∀ value, Record.get op (js "source") = some value → source value = true

/-- The names of the operations are not that of the metadata. -/
theorem name_ne_source {spec : OpSpec} (h : spec ∈ operations) : js spec.name ≠ js "source" := by
  have hall : ∀ spec ∈ operations, js spec.name ≠ js "source" := by decide
  exact hall spec h

/-- The members of the schema belong to the operations of the specification. -/
theorem mem_payloadFields_iff {name : String} {fields : List ShapeField} :
    (name, fields) ∈ payloadFields ↔
      ∃ spec, spec.name = name ∧ (spec, fields) ∈ operations.zip (payloadFields.map Prod.snd) := by
  have hzip : payloadFields =
      (operations.zip (payloadFields.map Prod.snd)).map fun p => (p.1.name, p.2) := rfl
  constructor
  · intro h
    rw [hzip] at h
    obtain ⟨⟨spec, fields'⟩, hmem, heq⟩ := List.mem_map.mp h
    obtain ⟨rfl, rfl⟩ := Prod.mk.inj heq
    exact ⟨spec, rfl, hmem⟩
  · rintro ⟨spec, rfl, hmem⟩
    rw [hzip]
    exact List.mem_map.mpr ⟨_, hmem, rfl⟩

/-- The schema of one operation. -/
theorem opSchema_iff {source : Shape} {spec : OpSpec} {fields : List ShapeField}
    {rawOp : JsValue} :
    opSchema source spec.name fields rawOp = true ↔
      ∃ op payload, rawOp = .obj op ∧
        (∀ key ∈ Record.keys op, key = js spec.name ∨ key = js "source") ∧
        Record.get op (js spec.name) = some (.obj payload) ∧
        (Shape.closed fields (.obj payload) = true ∧
          payloadRefinement spec.name (.obj payload) = true) ∧
        ∀ value, Record.get op (js "source") = some value → source value = true := by
  unfold opSchema
  cases rawOp with
  | obj op =>
    rw [closed_obj_iff]
    simp only [List.mem_cons, List.not_mem_nil, or_false, exists_eq_or_imp, exists_eq_left,
      forall_eq_or_imp, forall_eq, Shape.refined, Bool.and_eq_true, JsValue.obj.injEq,
      Bool.true_eq_false, false_imp_iff, and_true, true_imp_iff]
    constructor
    · rintro ⟨hkeys, ⟨hshape, hhas⟩, hsource⟩
      obtain ⟨value, hvalue⟩ := Record.has_eq_true.mp hhas
      have hboth := hshape value hvalue
      cases value with
      | obj payload =>
        refine ⟨op, payload, rfl, fun key hkey => ?_, hvalue, hboth, hsource⟩
        exact (hkeys key hkey).imp Eq.symm Eq.symm
      | _ => cases hboth.1
    · rintro ⟨op', payload, rfl, hkeys, hvalue, hboth, hsource⟩
      refine ⟨fun key hkey => (hkeys key hkey).imp Eq.symm Eq.symm,
        ⟨fun value h => ?_, ?_⟩, hsource⟩
      · obtain rfl := Option.some.inj (h.symm.trans hvalue)
        exact hboth
      · exact Record.has_eq_true.mpr ⟨_, hvalue⟩
  | _ => simp [Shape.closed]

/-- The schema takes an operation exactly when it fits an operation of the specification. -/
theorem unionSchema_iff {source : Shape} {rawOp : JsValue} :
    unionSchema source rawOp = true ↔
      ∃ op spec payload, rawOp = .obj op ∧ Fits source op spec payload := by
  simp only [unionSchema, Shape.anyOf, List.any_map, List.any_eq_true, Function.comp_apply,
    Prod.exists]
  constructor
  · rintro ⟨name, fields, hmem, hschema⟩
    obtain ⟨spec, rfl, hzip⟩ := mem_payloadFields_iff.mp hmem
    have hspec : spec ∈ operations := (List.of_mem_zip hzip).1
    obtain ⟨op, payload, rfl, hkeys, hpayload, hright, hsource⟩ := opSchema_iff.mp hschema
    have hname := resolveOpName_of_keys hkeys
      (Record.mem_keys.mpr (Record.has_eq_true.mpr ⟨_, hpayload⟩)) (name_ne_source hspec)
    exact ⟨op, spec, payload, rfl, hspec, hname, hkeys, hpayload, ⟨fields, hzip, hright⟩, hsource⟩
  · rintro ⟨op, spec, payload, rfl, hfits⟩
    obtain ⟨fields, hzip, hright⟩ := hfits.right
    exact ⟨spec.name, fields, mem_payloadFields_iff.mpr ⟨spec, rfl, hzip⟩,
      opSchema_iff.mpr ⟨op, payload, rfl, hfits.keys, hfits.body, hright, hfits.origin⟩⟩

/-- The paths of an operation that fits. -/
theorem Fits.getOpPaths_eq {source : Shape} {op : Record JsValue} {spec : OpSpec}
    {payload : Record JsValue} (h : Fits source op spec payload) :
    getOpPaths (.obj op) = pathTexts spec payload := by
  simp only [getOpPaths, h.name, (getOpSpec_of_mem h.known).1, h.body, Option.getD_some]

/-! ## The engine -/

/-- The fields of an operation that fits are valid. -/
theorem Fits.validateFields {source : Shape} {op : Record JsValue} {spec : OpSpec}
    {payload : Record JsValue} (h : Fits source op spec payload) {opName : JsString} {index : ℕ} :
    validateFields opName payload spec index = .ok () := by
  obtain ⟨fields, hzip, hclosed, -⟩ := h.right
  obtain ⟨hrequired, hkeys, haccepts⟩ := (closed_iff_of_mem hzip).mp hclosed
  unfold T3x.Yops.validateFields
  have hmissing : spec.fields.find? (fun f => f.required && !Record.has payload (js f.name)) =
      none := by
    rw [List.find?_eq_none]
    intro f hf
    simpa using hrequired f hf
  have hunknown : (Record.keys payload).find?
      (fun key => !spec.fields.any fun f => decide (js f.name = key)) = none := by
    rw [List.find?_eq_none]
    intro key hkey
    simpa using hkeys key hkey
  have henum : spec.fields.find? (fun f => f.enum.any fun values =>
      (Record.get payload (js f.name)).any fun value => !Shape.word values value) = none := by
    rw [List.find?_eq_none]
    intro f hf
    cases hvalues : f.enum with
    | none => simp
    | some values =>
      cases hget : Record.get payload (js f.name) with
      | none => simp
      | some value =>
        have htype : ∀ spec ∈ operations, ∀ f ∈ spec.fields, f.enum ≠ none → f.type = "string" := by
          decide
        have hstring := htype spec h.known f hf (by simp [hvalues])
        have haccept := haccepts f hf value hget
        cases value with
        | str s =>
          simp only [fieldAccepts, hvalues, Option.all_some, Bool.and_eq_true] at haccept
          simp [haccept.2.1.1]
        | _ => simp [fieldAccepts, hstring, runtimeMatchesSpecType] at haccept
  rw [hmissing, hunknown, henum]

/-- An operation that the schema takes is called by its name with its payload. -/
theorem Fits.resolveCall {source : Shape} {op : Record JsValue} {spec : OpSpec}
    {payload : Record JsValue} (h : Fits source op spec payload) (index : ℕ) :
    ∃ handler, getHandler (js spec.name) = some handler ∧ resolveCall (.obj op) index =
      .ok { opName := js spec.name, fields := payload, spec, handler } := by
  obtain ⟨hspec, handler, hhandler⟩ := getOpSpec_of_mem h.known
  refine ⟨handler, hhandler, ?_⟩
  unfold T3x.Yops.resolveCall
  simp only [h.name, hspec, hhandler, h.body, Option.getD_some, h.validateFields]
  rfl

/-- Paths pass one check after the other exactly when all of them parse. -/
theorem forM_tryParsePath_ok_iff (index : ℕ) (paths : List JsString) :
    (∃ u, paths.forM (fun path =>
      match tryParsePath path with
      | .ok _ => (.ok () : Except YopsError Unit)
      | .error e => .error ⟨"INVALID_PATH", e.message, index⟩) = .ok u) ↔
      ∀ path ∈ paths, ∃ segments, tryParsePath path = .ok segments := by
  induction paths with
  | nil => exact ⟨fun _ _ h => absurd h List.not_mem_nil, fun _ => ⟨(), rfl⟩⟩
  | cons path paths ih =>
    rw [List.forall_mem_cons, ← ih]
    cases htry : tryParsePath path with
    | error e =>
      refine iff_of_false ?_ (by simp)
      rintro ⟨u, hu⟩
      simp only [List.forM, htry] at hu
      cases hu
    | ok segments =>
      simp only [List.forM, htry, Except.ok.injEq, exists_eq', true_and]
      exact Iff.rfl

/-- An operation reaches its handler exactly when the schema takes it and its paths parse. -/
theorem checkUpFront_ok_iff (issueMessage : JsValue → JsString) {rawOp : JsValue} (index : ℕ) :
    (∃ call, checkUpFront issueMessage rawOp index = .ok call) ↔
      yOpSchema rawOp = true ∧
        ∀ path ∈ getOpPaths rawOp, ∃ segments, tryParsePath path = .ok segments := by
  have hpaths := forM_tryParsePath_ok_iff index (getOpPaths rawOp)
  unfold checkUpFront
  constructor
  · rintro ⟨call, hcall⟩
    obtain ⟨call', hresolve, hrest⟩ := bind_eq_ok_iff.mp hcall
    obtain ⟨u, hcheck, -⟩ := bind_eq_ok_iff.mp hrest
    unfold checkCall at hcheck
    split_ifs at hcheck with hschema
    exact ⟨hschema, hpaths.mp ⟨u, hcheck⟩⟩
  · rintro ⟨hschema, hparse⟩
    obtain ⟨op, spec, payload, rfl, hfits⟩ := unionSchema_iff.mp hschema
    obtain ⟨handler, -, hresolve⟩ := hfits.resolveCall index
    obtain ⟨u, hu⟩ := hpaths.mpr hparse
    have hcheck : checkCall issueMessage (.obj op) index = .ok u := by
      unfold checkCall
      rw [if_pos hschema]
      exact hu
    exact exists_bind hresolve (exists_bind hcheck ⟨_, rfl⟩)

/-! ## The validator -/

/-- Every diagnostic is about the operation at the index. -/
def About (index : ℕ) (found : List Diagnostic) : Prop := ∀ d ∈ found, d.opIndex = some index

section

variable {T : Type} {index : ℕ} {found more : List Diagnostic} {items : List T}

/-- Nothing found. -/
theorem About.nil : About index [] := fun _ h => absurd h List.not_mem_nil

/-- One diagnostic. -/
theorem About.singleton {d : Diagnostic} (h : d.opIndex = some index) : About index [d] := by
  intro d' hd'
  rw [List.mem_singleton.mp hd', h]

/-- Two lists in a row. -/
theorem About.append (h : About index found) (h' : About index more) :
    About index (found ++ more) := List.forall_mem_append.mpr ⟨h, h'⟩

/-- What is found item by item. -/
theorem About.flatMap {f : T → List Diagnostic} (h : ∀ item ∈ items, About index (f item)) :
    About index (items.flatMap f) := by
  intro d hd
  obtain ⟨item, hitem, hmem⟩ := List.mem_flatMap.mp hd
  exact h item hitem d hmem

/-- One diagnostic for each item. -/
theorem About.map {f : T → Diagnostic} (h : ∀ item, (f item).opIndex = some index) :
    About index (items.map f) := by
  intro d hd
  obtain ⟨item, -, rfl⟩ := List.mem_map.mp hd
  exact h item

/-- A diagnostic that is given only in one case. -/
theorem About.ite {c : Prop} [Decidable c] (h : c → About index found)
    (h' : ¬ c → About index more) : About index (if c then found else more) := by
  split_ifs with hc
  · exact h hc
  · exact h' hc

end

section

variable {index : ℕ}

/-- What is found about a path. -/
theorem about_validatePath {path field : JsString} {rootable : Bool} :
    About index (validatePath path index field rootable) := by
  unfold validatePath
  refine .ite (fun _ => .ite (fun _ => .nil) fun _ => .singleton rfl) fun _ => ?_
  split
  · exact .singleton rfl
  · refine .flatMap fun raw _ => ?_
    unfold segmentDiagnostics
    exact .ite (fun _ => .nil) fun _ =>
      .ite (fun _ => .ite (fun _ => .singleton rfl) fun _ => .nil) fun _ =>
        .ite (fun _ => .singleton rfl) fun _ => .nil

/-- What is found about a field. -/
theorem about_fieldDiagnostics {spec : OpSpec} {f : FieldSpec} {value : JsValue} :
    About index (fieldDiagnostics spec f value index) := by
  unfold fieldDiagnostics
  refine .ite (fun _ => .singleton rfl) fun _ => ?_
  split
  · exact .ite (fun _ => .singleton rfl) fun _ => .ite (fun _ => about_validatePath) fun _ => .nil
  · exact .nil

/-- What is found about the source. -/
theorem about_validateSource {value : JsValue} : About index (validateSource value index) := by
  unfold validateSource
  split
  · refine .ite (fun _ => .ite (fun _ => .nil) fun _ => .singleton rfl) fun _ =>
      .ite (fun _ => ?_) fun _ => .singleton rfl
    split
    · exact .append (.ite (fun _ => .nil) fun _ => .singleton rfl)
        (.ite (fun _ => .nil) fun _ => .singleton rfl)
    · exact .singleton rfl
  · exact .singleton rfl

/-- What is found about the refinements. -/
theorem about_validateOpRefinements {opName : String} {payload : Record JsValue} :
    About index (validateOpRefinements opName payload index) := by
  unfold validateOpRefinements
  refine .append (.append (.append (.ite (fun _ => .singleton rfl) fun _ => .nil)
    (.map fun _ => rfl)) (.flatMap fun _ _ => .map fun _ => rfl)) (.ite (fun _ => ?_) fun _ => .nil)
  refine .flatMap fun group _ => ?_
  split
  · exact .map fun _ => rfl
  · exact .singleton rfl

/-- What is found about a payload. -/
theorem about_payloadDiagnostics {spec : OpSpec} {payload : Record JsValue} :
    About index (payloadDiagnostics spec payload index) :=
  .append (.append (.append (.map fun _ => rfl) (.map fun _ => rfl))
    (.flatMap fun _ _ => .flatMap fun _ _ => about_fieldDiagnostics)) about_validateOpRefinements

/-- What is found about an operation. -/
theorem about_validateOp {rawOp : JsValue} {found : List Diagnostic}
    (h : validateOp rawOp index = .ok found) : About index found := by
  unfold validateOp at h
  split at h
  · next op =>
    split at h
    · obtain rfl := Except.ok.inj h
      exact .singleton rfl
    · next opName hname =>
      have houter : About index (outerDiagnostics op opName index ++
          (Record.get op (js "source")).toList.flatMap fun source => validateSource source index) :=
        .append (.map fun _ => rfl) (.flatMap fun _ _ => about_validateSource)
      simp only at h
      split at h
      · obtain rfl := Except.ok.inj h
        exact .append houter (.singleton rfl)
      · obtain rfl := Except.ok.inj h
        exact .append houter about_payloadDiagnostics
      · cases h
      · obtain rfl := Except.ok.inj h
        exact .append houter (.singleton rfl)
  · obtain rfl := Except.ok.inj h
    exact .singleton rfl

end

/-- No operation of the specification has a name that every object inherits. -/
theorem getOpSpec_of_inherited {opName : JsString} (h : opName ∈ inheritedNames) :
    getOpSpec opName = none := by
  have hall : ∀ opName ∈ inheritedNames, getOpSpec opName = none := by decide
  exact hall opName h

/-- The outer keys are without errors exactly when they are the name and the metadata. -/
theorem clean_outerDiagnostics {op : Record JsValue} {opName : JsString} {index : ℕ} :
    Clean (outerDiagnostics op opName index) ↔
      ∀ key ∈ Record.keys op, key = opName ∨ key = js "source" := by
  unfold outerDiagnostics
  rw [clean_map_iff fun _ => rfl, List.filter_eq_nil_iff]
  simp only [decide_eq_true_eq, not_and, not_not]
  exact forall₂_congr fun key _ => or_iff_not_imp_left.symm

/-- An entry of its own is the specification under the name. -/
theorem getOpSpec_of_readOperation {opName : JsString} {spec : OpSpec}
    (h : readOperation opName = some (.own spec)) : getOpSpec opName = some spec := by
  unfold readOperation at h
  split at h
  · next spec' hspec =>
    obtain rfl := SpecEntry.own.inj (Option.some.inj h)
    exact hspec
  · split_ifs at h
    cases h

/-- What is inherited is under an inherited name. -/
theorem inherited_of_readOperation {opName : JsString}
    (h : readOperation opName = some .inherited) : opName ∈ inheritedNames := by
  unfold readOperation at h
  split at h
  · cases h
  · split_ifs at h with hmem
    exact hmem

/-- The validator throws at an operation that goes by an inherited name. -/
theorem validateOp_of_inherited {rawOp : JsValue} (index : ℕ) (h : GoesByInheritedName rawOp) :
    ∃ e, validateOp rawOp index = .error e := by
  obtain ⟨op, opName, payload, rfl, hname, hinherited, hpayload⟩ := h
  refine ⟨js "Cannot convert undefined or null to object", ?_⟩
  simp [validateOp, hname, readOperation, getOpSpec_of_inherited hinherited, hinherited, hpayload]

/-- The validator reports no error of an operation with a specification exactly when it is
right but perhaps for the optional members of its source. -/
theorem clean_of_getOpSpec {op : Record JsValue} {spec : OpSpec} {payload : Record JsValue}
    {index : ℕ} (hname : resolveOpName op = some (js spec.name)) (hspec : spec ∈ operations)
    (hpayload : Record.get op (js spec.name) = some (.obj payload)) :
    Clean (outerDiagnostics op (js spec.name) index ++
      ((Record.get op (js "source")).toList.flatMap fun source => validateSource source index) ++
      payloadDiagnostics spec payload index) ↔ RightButForSource (.obj op) := by
  rw [clean_append, clean_append, clean_outerDiagnostics, clean_flatMap]
  simp only [Option.mem_toList, clean_validateSource]
  constructor
  · rintro ⟨⟨hkeys, hsource⟩, hclean⟩
    obtain ⟨fields, -, hzip⟩ := exists_payloadFields hspec
    obtain ⟨hright, hpaths⟩ := (clean_payloadDiagnostics hzip).mp hclean
    have hfits : Fits coreSourceSchema op spec payload :=
      ⟨hspec, hname, hkeys, hpayload, ⟨fields, hzip, hright⟩, hsource⟩
    refine ⟨unionSchema_iff.mpr ⟨op, spec, payload, rfl, hfits⟩, ?_⟩
    rw [hfits.getOpPaths_eq]
    exact hpaths
  · rintro ⟨hschema, hpaths⟩
    obtain ⟨op', spec', payload', heq, hfits⟩ := unionSchema_iff.mp hschema
    obtain rfl := JsValue.obj.inj heq
    have hsame : spec' = spec := by
      have hnames := Option.some.inj (hfits.name.symm.trans hname)
      have hfound := (getOpSpec_of_mem hfits.known).1
      rw [hnames, (getOpSpec_of_mem hspec).1] at hfound
      exact (Option.some.inj hfound).symm
    subst hsame
    obtain rfl := JsValue.obj.inj (Option.some.inj (hfits.body.symm.trans hpayload))
    rw [hfits.getOpPaths_eq] at hpaths
    obtain ⟨fields, hzip, hright⟩ := hfits.right
    exact ⟨⟨hfits.keys, hfits.origin⟩, (clean_payloadDiagnostics hzip).mpr ⟨hright, hpaths⟩⟩

/-- Of any other operation the validator reports no error exactly when it is right but
perhaps for the optional members of its source. -/
theorem validateOp_clean_iff {rawOp : JsValue} (index : ℕ) (h : ¬ GoesByInheritedName rawOp) :
    ∃ found, validateOp rawOp index = .ok found ∧ (Clean found ↔ RightButForSource rawOp) := by
  have hnot : ∀ {op : Record JsValue} {opName : JsString}, resolveOpName op = some opName →
      (∀ spec payload, Record.get op opName = some (.obj payload) → js spec.name = opName →
        spec ∉ operations) → ¬ RightButForSource (.obj op) := by
    rintro op opName hname hnone ⟨hschema, -⟩
    obtain ⟨op', spec, payload, heq, hfits⟩ := unionSchema_iff.mp hschema
    obtain rfl := JsValue.obj.inj heq
    obtain rfl := Option.some.inj (hname.symm.trans hfits.name)
    exact hnone spec payload hfits.body rfl hfits.known
  unfold validateOp
  split
  · next op =>
    split
    · next hname =>
      refine ⟨_, rfl, iff_of_false (not_clean_singleton rfl) ?_⟩
      rintro ⟨hschema, -⟩
      obtain ⟨op', spec, payload, heq, hfits⟩ := unionSchema_iff.mp hschema
      obtain rfl := JsValue.obj.inj heq
      rw [hfits.name] at hname
      cases hname
    · next opName hname =>
      obtain ⟨value, hvalue⟩ :=
        Record.has_eq_true.mp (Record.mem_keys.mp (resolveOpName_spec hname).1)
      simp only [hvalue, Option.getD_some]
      split
      · next hread =>
        refine ⟨_, rfl, iff_of_false (not_clean_append_error rfl) (hnot hname ?_)⟩
        rintro spec payload - rfl hspec
        simp [readOperation, (getOpSpec_of_mem hspec).1] at hread
      · next spec payload hread =>
        obtain ⟨hspec, rfl⟩ := mem_of_getOpSpec (getOpSpec_of_readOperation hread)
        exact ⟨_, rfl, clean_of_getOpSpec hname hspec hvalue⟩
      · next payload hread =>
        exact absurd ⟨op, opName, payload, rfl, hname, inherited_of_readOperation hread, hvalue⟩ h
      · next entry hread hown hinherited =>
        refine ⟨_, rfl, iff_of_false (not_clean_append_error rfl) (hnot hname ?_)⟩
        rintro spec payload hpayload rfl hspec
        obtain rfl := Option.some.inj (hvalue.symm.trans hpayload)
        have hfound : readOperation (js spec.name) = some (.own spec) := by
          simp [readOperation, (getOpSpec_of_mem hspec).1]
        exact hown spec payload rfl (Option.some.inj (hread.symm.trans hfound))
  · refine ⟨_, rfl, iff_of_false (not_clean_singleton rfl) ?_⟩
    rintro ⟨hschema, -⟩
    obtain ⟨op, spec, payload, rfl, -⟩ := unionSchema_iff.mp hschema
    simp_all

/-! ## What is missed -/

/-- The engine rejects the operation before it runs its handler. -/
def RejectsUpFront (issueMessage : JsValue → JsString) (rawOp : JsValue) (index : ℕ) : Prop :=
  ∃ e, checkUpFront issueMessage rawOp index = .error e

/-- The validator returns, with an error for every operation that the engine rejects before
it runs its handler. -/
def MissesNothing (issueMessage : JsValue → JsString) (ops : List JsValue) : Prop :=
  ∀ index rawOp, ops[index]? = some rawOp → RejectsUpFront issueMessage rawOp index →
    ∃ found, validateYOpsOps ops = .ok found ∧
      ∃ d ∈ found, d.severity = "error" ∧ d.opIndex = some index

/-- The only fault of the operation is an optional member of its source: the schema takes it
when these members are not looked at and not otherwise, and its paths are clean. -/
def OnlySourceAtFault (rawOp : JsValue) : Prop :=
  RightButForSource rawOp ∧ yOpSchema rawOp = false

/-- The validator returns exactly when no operation goes by an inherited name, and then it
has found what it finds in each operation. -/
theorem validateFrom_spec (start : ℕ) (ops : List JsValue) :
    ((∃ rawOp ∈ ops, GoesByInheritedName rawOp) → ∃ e, validateFrom start ops = .error e) ∧
      ((∀ rawOp ∈ ops, ¬ GoesByInheritedName rawOp) → ∃ found,
        validateFrom start ops = .ok found ∧ ∀ d, d ∈ found ↔ ∃ index rawOp more,
          ops[index]? = some rawOp ∧ validateOp rawOp (start + index) = .ok more ∧ d ∈ more) := by
  induction ops generalizing start with
  | nil => exact ⟨by simp, fun _ => ⟨[], rfl, by simp⟩⟩
  | cons rawOp ops ih =>
    obtain ⟨ihthrow, ihreturn⟩ := ih (start + 1)
    by_cases hinherited : GoesByInheritedName rawOp
    · obtain ⟨e, he⟩ := validateOp_of_inherited start hinherited
      refine ⟨fun _ => ⟨e, ?_⟩, fun h => absurd hinherited (h rawOp List.mem_cons_self)⟩
      simp [validateFrom, he, Bind.bind, Except.bind]
    · obtain ⟨more, hmore, -⟩ := validateOp_clean_iff start hinherited
      have hhead : validateFrom start (rawOp :: ops) =
          (validateFrom (start + 1) ops >>= fun rest => pure (more ++ rest)) := by
        simp [validateFrom, hmore, Bind.bind, Except.bind]
      constructor
      · rintro ⟨other, hother, hgoes⟩
        have hrest : other ∈ ops :=
          (List.mem_cons.mp hother).resolve_left fun heq => hinherited (heq ▸ hgoes)
        obtain ⟨e, he⟩ := ihthrow ⟨other, hrest, hgoes⟩
        exact ⟨e, by rw [hhead, he]; rfl⟩
      · intro h
        obtain ⟨rest, hrest, hmem⟩ := ihreturn fun other hother =>
          h other (List.mem_cons_of_mem _ hother)
        refine ⟨more ++ rest, by rw [hhead, hrest]; rfl, fun d => ?_⟩
        rw [List.mem_append, hmem]
        constructor
        · rintro (hd | ⟨index, other, found, hother, hfound, hd⟩)
          · exact ⟨0, rawOp, more, rfl, hmore, hd⟩
          · rw [Nat.add_right_comm, Nat.add_assoc] at hfound
            exact ⟨index + 1, other, found, hother, hfound, hd⟩
        · rintro ⟨index, other, found, hother, hfound, hd⟩
          cases index with
          | zero =>
            obtain rfl := Option.some.inj hother
            obtain rfl := Except.ok.inj (hfound.symm.trans hmore)
            exact .inl hd
          | succ index =>
            exact .inr ⟨index, other, found, hother,
              by rwa [Nat.add_right_comm, Nat.add_assoc], hd⟩

/-- An operation that is rejected before its handler runs. -/
theorem rejectsUpFront_iff {issueMessage : JsValue → JsString} {rawOp : JsValue} {index : ℕ} :
    RejectsUpFront issueMessage rawOp index ↔
      ¬ (yOpSchema rawOp = true ∧
        ∀ path ∈ getOpPaths rawOp, ∃ segments, tryParsePath path = .ok segments) := by
  rw [← checkUpFront_ok_iff issueMessage index]
  unfold RejectsUpFront
  cases checkUpFront issueMessage rawOp index with
  | error e => simp
  | ok call => simp

/-- An operation that goes by an inherited name is not taken by the schema. -/
theorem yOpSchema_of_inherited {rawOp : JsValue} (h : GoesByInheritedName rawOp) :
    ¬ yOpSchema rawOp = true := by
  obtain ⟨op, opName, payload, rfl, hname, hinherited, -⟩ := h
  intro hschema
  obtain ⟨op', spec, payload', heq, hfits⟩ := unionSchema_iff.mp hschema
  obtain rfl := JsValue.obj.inj heq
  obtain rfl := Option.some.inj (hname.symm.trans hfits.name)
  have hfound := (getOpSpec_of_mem hfits.known).1
  rw [getOpSpec_of_inherited hinherited] at hfound
  cases hfound

/-- The validator misses nothing exactly when no operation goes by an inherited name and
none has an optional member of its source as its only fault. -/
theorem missesNothing_iff (issueMessage : JsValue → JsString) (ops : List JsValue) :
    MissesNothing issueMessage ops ↔
      ∀ rawOp ∈ ops, ¬ GoesByInheritedName rawOp ∧ ¬ OnlySourceAtFault rawOp := by
  obtain ⟨hthrows, hreturns⟩ := validateFrom_spec 0 ops
  constructor
  · intro hmisses rawOp hmem
    obtain ⟨index, hindex⟩ := List.mem_iff_getElem?.mp hmem
    have hreport : ¬ yOpSchema rawOp = true → ∃ found, validateYOpsOps ops = .ok found ∧
        ∃ d ∈ found, d.severity = "error" ∧ d.opIndex = some index := fun hschema =>
      hmisses index rawOp hindex (rejectsUpFront_iff.mpr fun h => hschema h.1)
    have hnone : ∀ {found}, validateYOpsOps ops = .ok found →
        ∀ other ∈ ops, ¬ GoesByInheritedName other := by
      intro found hfound other hother hgoes
      obtain ⟨e, he⟩ := hthrows ⟨other, hother, hgoes⟩
      have hboth := hfound.symm.trans he
      cases hboth
    constructor
    · intro hgoes
      obtain ⟨found, hfound, -⟩ := hreport (yOpSchema_of_inherited hgoes)
      exact hnone hfound rawOp hmem hgoes
    · rintro ⟨hright, hschema⟩
      obtain ⟨found, hfound, d, hd, hseverity, hopIndex⟩ := hreport (by simp [hschema])
      obtain ⟨found', hfound', hfrom⟩ := hreturns (hnone hfound)
      obtain rfl := Except.ok.inj (hfound.symm.trans hfound')
      obtain ⟨index', other, more, hother, hmore, hdmore⟩ := (hfrom d).mp hd
      have hsame : index' = index := by
        have habout := about_validateOp hmore d hdmore
        rw [hopIndex, Nat.zero_add] at habout
        exact (Option.some.inj habout).symm
      subst hsame
      obtain rfl := Option.some.inj (hother.symm.trans hindex)
      obtain ⟨more', hmore', hclean⟩ := validateOp_clean_iff (0 + index') (hnone hfound other hmem)
      obtain rfl := Except.ok.inj (hmore.symm.trans hmore')
      exact hclean.mpr hright d hdmore hseverity
  · intro hops index rawOp hindex hrejects
    have hmem : rawOp ∈ ops := List.mem_of_getElem? hindex
    obtain ⟨found, hfound, hfrom⟩ := hreturns fun other hother => (hops other hother).1
    refine ⟨found, hfound, ?_⟩
    obtain ⟨more, hmore, hclean⟩ := validateOp_clean_iff (0 + index) (hops rawOp hmem).1
    have hnot : ¬ Clean more := by
      intro hmoreClean
      obtain ⟨hright, hpaths⟩ := hclean.mp hmoreClean
      refine (rejectsUpFront_iff.mp hrejects) ⟨?_, fun path hpath => (hpaths path hpath).1⟩
      by_contra hschema
      exact (hops rawOp hmem).2 ⟨⟨hright, hpaths⟩, by simpa using hschema⟩
    unfold Clean at hnot
    push Not at hnot
    obtain ⟨d, hd, hseverity⟩ := hnot
    have habout := about_validateOp hmore d hd
    rw [Nat.zero_add] at habout
    exact ⟨d, (hfrom d).mpr ⟨index, rawOp, more, hindex, hmore, hd⟩, hseverity, habout⟩

/-- The validator throws at an operation named `constructor` and finds nothing wrong with a
source whose surface is a number; the engine rejects both before a handler runs. -/
theorem validateYOpsOps_misses :
    let issueMessage : JsValue → JsString := fun _ => js "Invalid input"
    let inherited := JsValue.obj [(js "constructor", .obj [])]
    let surface := JsValue.obj
      [(js "define", .obj [(js "path", .str (js "a"))]),
        (js "source", .obj [(js "type", .str (js "human")), (js "author", .str (js "x")),
          (js "surface", .num .zero)])]
    ¬ MissesNothing issueMessage [inherited] ∧ ¬ MissesNothing issueMessage [surface] := by
  intro issueMessage inherited surface
  constructor
  · intro h
    have hrejects : RejectsUpFront issueMessage inherited 0 :=
      rejectsUpFront_iff.mpr fun hok => absurd hok.1 (by decide)
    have hthrows : validateYOpsOps [inherited] =
        .error (js "Cannot convert undefined or null to object") := by rfl
    obtain ⟨found, hfound, -⟩ := h 0 inherited rfl hrejects
    rw [hthrows] at hfound
    cases hfound
  · intro h
    have hrejects : RejectsUpFront issueMessage surface 0 :=
      rejectsUpFront_iff.mpr fun hok => absurd hok.1 (by decide)
    have hsilent : validateYOpsOps [surface] = .ok [] := by rfl
    obtain ⟨found, hfound, d, hd, -⟩ := h 0 surface rfl hrejects
    rw [hsilent] at hfound
    obtain rfl := Except.ok.inj hfound
    exact List.not_mem_nil hd

end T3x.Yops
