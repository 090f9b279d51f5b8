import T3x.Yops.Combine
import T3x.Yops.Comparison
import T3x.Yops.Filling
import T3x.Yops.Frame
import T3x.Yops.Moves
import T3x.Yops.Sequential

/-!
# Replaying a recipe

A recipe replays an operation: the assertions hold of the document that it was
made from, and the writes give the document that the operation gives. It does
where the assignments define what they assign. A move of an item of a sequence
and a nest of no members are the recipes that leave something out.
-/

namespace T3x.Yops

open Js T3x.Run

/-! ## The steps of a recipe -/

section Steps

variable {issueMessage : JsValue → JsString} {doc value expected : JsValue} {path : JsString}
  {segments : List PathSegment}

/-- An operation that fits and whose paths parse goes to its handler. -/
theorem applyStep_of_fits {op : Record JsValue} {spec : OpSpec} {payload : Record JsValue}
    {handler : OpHandler} (hfits : Fits sourceSchema op spec payload)
    (hhandler : getHandler (js spec.name) = some handler)
    (hparse : ∀ path ∈ pathTexts spec payload, ∃ segments, tryParsePath path = .ok segments) :
    applyStep issueMessage (.obj op) doc = (handler doc payload 0).toOption := by
  obtain ⟨call, hcall⟩ := (checkUpFront_ok_iff issueMessage 0).mpr
    ⟨unionSchema_iff.mpr ⟨_, spec, payload, rfl, hfits⟩, hfits.getOpPaths_eq ▸ hparse⟩
  obtain ⟨handler', hhandler', hresolve⟩ := hfits.resolveCall 0
  obtain rfl := Option.some.inj (hhandler.symm.trans hhandler')
  obtain ⟨call', hresolve', hrest⟩ := bind_eq_ok_iff.mp hcall
  obtain ⟨-, -, hcall'⟩ := bind_eq_ok_iff.mp hrest
  obtain rfl := Except.ok.inj (hresolve.symm.trans hresolve')
  obtain rfl := Except.ok.inj hcall'
  rw [applyStep, applyOp_eq_checkUpFront, hcall]
  change (runHandler _ doc 0).toOption = _
  unfold runHandler
  simp only
  cases handler doc payload 0 with
  | ok next => rfl
  | error failure => cases failure <;> rfl

/-- An operation with one key and a payload that is right fits. -/
theorem fits_of_payload {spec : OpSpec} {fields : List ShapeField} {op payload : Record JsValue}
    (hzip : (spec, fields) ∈ operations.zip (payloadFields.map Prod.snd))
    (hkeys : ∀ key ∈ Record.keys op, key = js spec.name)
    (hbody : Record.get op (js spec.name) = some (.obj payload))
    (hclosed : Shape.closed fields (.obj payload) = true)
    (hrefined : payloadRefinement spec.name (.obj payload) = true) :
    Fits sourceSchema op spec payload := by
  have hknown : spec ∈ operations := (List.of_mem_zip hzip).1
  refine ⟨hknown, resolveOpName_of_keys (fun key hkey => .inl (hkeys key hkey)) ?_
    (name_ne_source hknown), fun key hkey => .inl (hkeys key hkey), hbody,
    ⟨fields, hzip, hclosed, hrefined⟩, fun source hsource => ?_⟩
  · exact Record.mem_keys.mpr (Record.has_eq_true.mpr ⟨_, hbody⟩)
  · have hmem := Record.mem_keys.mpr (Record.has_eq_true.mpr ⟨_, hsource⟩)
    exact absurd (hkeys _ hmem).symm (name_ne_source hknown)

/-- A payload that is right, under the name of its operation, fits. -/
theorem fits_singleton {spec : OpSpec} {fields : List ShapeField} {payload : Record JsValue}
    (hzip : (spec, fields) ∈ operations.zip (payloadFields.map Prod.snd))
    (hclosed : Shape.closed fields (.obj payload) = true)
    (hrefined : payloadRefinement spec.name (.obj payload) = true) :
    Fits sourceSchema [(js spec.name, .obj payload)] spec payload := by
  have hkeys : ∀ key ∈ Record.keys [(js spec.name, JsValue.obj payload)], key = js spec.name := by
    intro key hkey
    obtain ⟨value, hvalue⟩ := Record.has_eq_true.mp (Record.mem_keys.mp hkey)
    exact (Prod.mk.inj (List.mem_singleton.mp (Record.mem_of_get hvalue))).1
  have hbody : Record.get [(js spec.name, JsValue.obj payload)] (js spec.name) =
      some (.obj payload) := by simp [Record.get]
  exact fits_of_payload hzip hkeys hbody hclosed hrefined

/-- A payload that is right, under the name of its operation, goes to the handler. -/
theorem applyStep_of_payload {spec : OpSpec} {fields : List ShapeField} {payload : Record JsValue}
    {handler : OpHandler} (hzip : (spec, fields) ∈ operations.zip (payloadFields.map Prod.snd))
    (hhandler : getHandler (js spec.name) = some handler)
    (hclosed : Shape.closed fields (.obj payload) = true)
    (hrefined : payloadRefinement spec.name (.obj payload) = true)
    (hparse : ∀ path ∈ pathTexts spec payload, ∃ segments, tryParsePath path = .ok segments) :
    applyStep issueMessage (.obj [(js spec.name, .obj payload)]) doc =
      (handler doc payload 0).toOption :=
  applyStep_of_fits (fits_singleton hzip hclosed hrefined) hhandler hparse

/-- A path that is not empty is long enough for the schema. -/
theorem pathSchema_str (hne : path ≠ []) : pathSchema (.str path) = true := by
  simp [pathSchema, Shape.string, Nat.one_le_iff_ne_zero, hne]

/-- The one path of an operation parses. -/
theorem parses_pathTexts {name : String} {fields : List FieldSpec} {payload : Record JsValue}
    (hpath : Record.get payload (js "path") = some (.str path))
    (hparse : tryParsePath path = .ok segments) :
    ∀ text ∈ pathTexts (pathOp name fields) payload, ∃ segments, tryParsePath text = .ok segments := by
  intro text htext
  obtain ⟨field, hfield, htext⟩ := List.mem_filterMap.mp htext
  obtain rfl : field = "path" := by simpa [pathOp, PathFields.toList] using hfield
  simp only [hpath] at htext
  split_ifs at htext
  obtain rfl := Option.some.inj htext
  exact ⟨segments, hparse⟩

/-- An assertion of the value that is at a path holds. -/
theorem applyStep_assertEquals (hne : path ≠ []) (hparse : tryParsePath path = .ok segments)
    (hvalue : resolvePath doc path = some value) :
    applyStep issueMessage (assertEquals path value) doc = some doc := by
  have hzip := List.mem_of_getElem? (l := operations.zip (payloadFields.map Prod.snd)) (i := 17) rfl
  have hexists : Record.get [(js "path", JsValue.str path), (js "equals", value)] (js "exists") =
      none := rfl
  have hequals : Record.get [(js "path", JsValue.str path), (js "equals", value)] (js "equals") =
      some value := rfl
  have htype : optionalText [(js "path", JsValue.str path), (js "equals", value)] "type" =
      none := rfl
  have hpath : textField [(js "path", JsValue.str path), (js "equals", value)] "path" = path := rfl
  refine (applyStep_of_payload hzip rfl ?_ rfl (parses_pathTexts rfl hparse)).trans ?_
  · change (pathSchema (.str path) && (yValueSchema value && true)) = true
    rw [pathSchema_str hne, yValueSchema_eq_true, Bool.and_true, Bool.and_true]
  unfold assertHandler
  simp only [hexists, hequals, htype, hpath, hvalue]
  simp [Option.forM, bind, Except.bind, pure, Except.pure, Except.toOption]

/-- An assertion that nothing is at a path holds where nothing is. -/
theorem applyStep_assertAbsent (hne : path ≠ []) (hparse : tryParsePath path = .ok segments)
    (hvalue : resolvePath doc path = none) :
    applyStep issueMessage (assertAbsent path) doc = some doc := by
  have hzip := List.mem_of_getElem? (l := operations.zip (payloadFields.map Prod.snd)) (i := 17) rfl
  have hexists : Record.get [(js "path", JsValue.str path), (js "exists", .bool false)]
      (js "exists") = some (.bool false) := rfl
  have hequals : Record.get [(js "path", JsValue.str path), (js "exists", .bool false)]
      (js "equals") = none := rfl
  have htype : optionalText [(js "path", JsValue.str path), (js "exists", .bool false)] "type" =
      none := rfl
  have hpath : textField [(js "path", JsValue.str path), (js "exists", .bool false)] "path" =
      path := rfl
  refine (applyStep_of_payload hzip rfl ?_ rfl (parses_pathTexts rfl hparse)).trans ?_
  · change (pathSchema (.str path) && true) = true
    rw [pathSchema_str hne, Bool.and_true]
  unfold assertHandler
  simp only [hexists, hequals, htype, hpath, hvalue]
  simp [Option.forM, bind, Except.bind, pure, Except.pure, Except.toOption, JsValue.flag]

/-- A write of a value at a path sets it. -/
theorem applyStep_setValue (hne : path ≠ []) (hparse : tryParsePath path = .ok segments) :
    applyStep issueMessage (setValue path value) doc = (setAtPath doc path value).toOption := by
  have hzip := List.mem_of_getElem? (l := operations.zip (payloadFields.map Prod.snd)) (i := 3) rfl
  refine (applyStep_of_payload hzip rfl ?_ rfl (parses_pathTexts rfl hparse)).trans ?_
  · change (pathSchema (.str path) && (yValueSchema value && true)) = true
    rw [pathSchema_str hne, yValueSchema_eq_true, Bool.and_true, Bool.and_true]
  change (setHandler doc _ 0).toOption = _
  have hpath : textField [(js "path", JsValue.str path), (js "value", value)] "path" = path := rfl
  have hvalue : valueField [(js "path", JsValue.str path), (js "value", value)] "value" =
      value := rfl
  unfold setHandler
  simp only [hpath, hvalue]
  cases setAtPath doc path value <;> rfl

/-- A removal of a key is done by its handler. -/
theorem applyStep_unsetKey (hne : path ≠ []) (hparse : tryParsePath path = .ok segments) :
    applyStep issueMessage (unsetKey path) doc =
      (unsetHandler doc [(js "path", .str path)] 0).toOption := by
  have hzip := List.mem_of_getElem? (l := operations.zip (payloadFields.map Prod.snd)) (i := 4) rfl
  refine applyStep_of_payload hzip rfl ?_ rfl (parses_pathTexts rfl hparse)
  change (pathSchema (.str path) && true) = true
  rw [pathSchema_str hne, Bool.and_true]

end Steps

/-! ## Refinement -/

/-- The operations of a recipe are applied, and give a document that is canonically equal to what
the operation gives. -/
def Refines (issueMessage : JsValue → JsString) (doc op : JsValue) (ops : List JsValue) : Prop :=
  (applyYOps issueMessage doc ops).ok = true ∧
    canonicalJson (applyYOps issueMessage doc ops).doc =
      canonicalJson (applyYOps issueMessage doc [op]).doc

section Replacements

variable {issueMessage : JsValue → JsString} {doc op native result base target new : JsValue}
  {ops : List JsValue} {path : JsString} {segments : List PathSegment}

/-- One operation is a run. -/
theorem run_singleton (h : applyStep issueMessage op doc = some native) :
    run (applyStep issueMessage) doc [op] = some native := by
  simp [run, h]

/-- Where the operations of the recipe are applied, the documents have to be the same. -/
theorem refines_iff_of_run (hnative : applyStep issueMessage op doc = some native)
    (hops : run (applyStep issueMessage) doc ops = some result) :
    Refines issueMessage doc op ops ↔ JsValue.Same result native := by
  obtain ⟨more, hmore⟩ := applyYOps_of_run (run_singleton hnative)
  obtain ⟨more', hmore'⟩ := applyYOps_of_run hops
  rw [Refines, hmore, hmore']
  exact ⟨fun h => canonicalKey_eq_iff.mp h.2, fun h => ⟨rfl, canonicalKey_eq_iff.mpr h⟩⟩

/-- Where an operation of the recipe fails nothing is refined. -/
theorem not_refines_of_run (hops : run (applyStep issueMessage) doc ops = none) :
    ¬ Refines issueMessage doc op ops := by
  intro h
  rw [run_of_applyYOps h.1] at hops
  cases hops

/-- What the operations come to: the assertion of what is at a path and the write of another value
there, or nothing where the other value is the same. -/
inductive Replaces (path : JsString) (base target : JsValue) : List JsValue → Prop
  | write : Replaces path base target [assertEquals path base, setValue path target]
  | nothing (h : JsValue.Same base target) : Replaces path base target []

/-- The replacement of what is at a path. -/
theorem replaces_mappingPathReplacement (path : JsString) (base target : JsValue) :
    Replaces path base target (mappingPathReplacement path base target) := by
  unfold mappingPathReplacement
  split_ifs with hsame
  · exact .nothing (canonicalKey_eq_iff.mp hsame)
  · exact .write

/-- Setting a value where a mapping or a sequence is replaces it. -/
theorem setAtPath_eq_replaceAt (hbase : resolvePath doc path = some base)
    (hobject : isObject base = true) :
    setAtPath doc path new = .ok (replaceAt new (parsePath path) doc) := by
  rw [setAtPath, setAtPathSegments, deepClone_eq, deepClone_eq]
  exact setRecursive_eq_replaceAt hbase hobject

/-- A replacement gives the document with the other value in its place. -/
theorem Replaces.exists_run (issueMessage : JsValue → JsString)
    (h : Replaces path base target ops) (hne : path ≠ [])
    (hparse : tryParsePath path = .ok segments) (hbase : resolvePath doc path = some base)
    (hobject : isObject base = true) :
    ∃ result, run (applyStep issueMessage) doc ops = some result ∧
      JsValue.Same result (replaceAt target segments doc) := by
  have hsegments := parsePath_of_tryParsePath hparse
  cases h with
  | write =>
    refine ⟨_, ?_, JsValue.Same.refl _⟩
    have hset : applyStep issueMessage (setValue path target) doc =
        some (replaceAt target segments doc) := by
      rw [applyStep_setValue hne hparse, setAtPath_eq_replaceAt hbase hobject, hsegments]
      rfl
    simp [run, applyStep_assertEquals hne hparse hbase, hset]
  | nothing hsame =>
    rw [resolvePath, hsegments] at hbase
    exact ⟨doc, rfl, (replaceAt_self hbase).symm.trans (replaceAt_same hsame segments doc)⟩

/-- A recipe that replaces what is at a path, and an operation that puts a new value there. -/
structure Replacement (doc native : JsValue) (ops : List JsValue) (path : JsString)
    (base target new : JsValue) : Prop where
  /-- The path is not empty. -/
  path_ne : path ≠ []
  /-- It is well formed. -/
  parses : ∃ segments, tryParsePath path = .ok segments
  /-- The base is at the path. -/
  resolves : resolvePath doc path = some base
  /-- It is a mapping or a sequence. -/
  isObject : isObject base = true
  /-- The recipe puts the target in its place. -/
  replaces : Replaces path base target ops
  /-- The operation puts the new value in its place. -/
  same : JsValue.Same native (replaceAt new (parsePath path) doc)

/-- Such a recipe refines the operation exactly if the values are the same. -/
theorem Replacement.refines_iff (h : Replacement doc native ops path base target new)
    (hnative : applyStep issueMessage op doc = some native) :
    Refines issueMessage doc op ops ↔ JsValue.Same target new := by
  obtain ⟨segments, hparse⟩ := h.parses
  obtain ⟨result, hrun, hsame⟩ := h.replaces.exists_run issueMessage h.path_ne hparse h.resolves
    h.isObject
  have hat := h.same
  rw [parsePath_of_tryParsePath hparse] at hat
  have hresolves := h.resolves
  rw [resolvePath, parsePath_of_tryParsePath hparse] at hresolves
  rw [refines_iff_of_run hnative hrun]
  constructor
  · intro heq
    exact same_of_replaceAt hresolves (hsame.symm.trans (heq.trans hat))
  · intro heq
    exact hsame.trans ((replaceAt_same heq segments doc).trans hat.symm)

end Replacements

end T3x.Yops
