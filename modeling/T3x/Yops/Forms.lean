import T3x.Yops.Replay

/-!
# Forms of the primitive operations

A copy of an operation through its canonical text has its members in another
order. The schema takes every form of an assertion, a write or a removal, and at
a path that is one key the engine does with it what it does with the operation.
-/

namespace T3x.Yops

open Js T3x.Run

/-! ## Payloads -/

/-- A shape that does not tell the same values apart. -/
def Steady (shape : Shape) : Prop := ∀ a b, JsValue.Same a b → shape a = shape b

/-- A string with bounds does not tell the same values apart. -/
theorem steady_string (least : ℕ) (greatest : Option ℕ) : Steady (.string least greatest) := by
  intro a b h
  cases h.cases <;> rfl

/-- A boolean does not tell the same values apart. -/
theorem steady_boolean : Steady .boolean := by
  intro a b h
  cases h.cases <;> rfl

/-- A word does not tell the same values apart. -/
theorem steady_word (words : List String) : Steady (.word words) := by
  intro a b h
  cases h.cases <;> rfl

/-- Every value is a value of the document model. -/
theorem steady_yValueSchema : Steady yValueSchema := by
  intro a b _
  rw [yValueSchema_eq_true, yValueSchema_eq_true]

section

variable {form : JsValue} {name : String} {payload payload' : Record JsValue}

/-- A closed object of steady shapes does not tell records apart that read alike. -/
theorem closed_congr {fields : List ShapeField} (hsteady : ∀ f ∈ fields, Steady f.shape)
    (h : Record.Same payload' payload) :
    Shape.closed fields (.obj payload') = Shape.closed fields (.obj payload) := by
  have hkeys : ∀ key, key ∈ Record.keys payload' ↔ key ∈ Record.keys payload := fun key => by
    rw [Record.mem_keys, Record.mem_keys, h.has_eq]
  rw [Bool.eq_iff_iff, closed_obj_iff, closed_obj_iff]
  refine and_congr (forall_congr' fun key => by rw [hkeys]) (forall₂_congr fun f hf => ?_)
  rw [h.has_eq]
  refine and_congr_left fun _ => ?_
  have hread := h (js f.name)
  cases hvalue' : Record.get payload' (js f.name) with
  | none =>
    rw [hvalue'] at hread
    rw [Option.map_eq_none_iff.mp hread.symm]
  | some value' =>
    rw [hvalue'] at hread
    obtain ⟨value, hvalue, hsame⟩ := Option.map_eq_some_iff.mp hread.symm
    rw [hvalue]
    simp only [Option.some.injEq, forall_eq']
    rw [hsteady f hf value' value hsame.symm]

/-- A form of an operation is a mapping with the one key, to a payload that reads alike. -/
theorem exists_payload_of_same (h : JsValue.Same form (.obj [(js name, .obj payload)])) :
    ∃ op payload', form = .obj op ∧ (∀ key ∈ Record.keys op, key = js name) ∧
      Record.get op (js name) = some (.obj payload') ∧ Record.Same payload' payload := by
  cases form with
  | obj op =>
    have hread := JsValue.denote_obj_eq_iff.mp h
    refine ⟨op, ?_⟩
    have hbody := hread (js name)
    simp only [Record.get, if_pos] at hbody
    obtain ⟨body, hget, hsame⟩ := Option.map_eq_some_iff.mp hbody
    cases body with
    | obj payload' =>
      refine ⟨payload', rfl, fun key hkey => ?_, hget, JsValue.denote_obj_eq_iff.mp hsame⟩
      by_contra hne
      have hnone := hread key
      rw [Record.mem_keys] at hkey
      obtain ⟨value, hvalue⟩ := Record.has_eq_true.mp hkey
      simp [hvalue, Record.get, Ne.symm hne] at hnone
    | _ => simp at hsame
  | _ => simp [JsValue.Same] at h

/-- The same values have one text. -/
theorem text_congr {a b : JsValue} (h : JsValue.Same a b) : a.text = b.text := by
  cases h.cases <;> rfl

/-- The text of a member is the same in records that read alike. -/
theorem textField_congr (h : Record.Same payload' payload) (field : String) :
    textField payload' field = textField payload field :=
  text_congr (h.getD (js field) .null)

/-- A member that is absent is absent from a record that reads alike. -/
theorem get_none_congr (h : Record.Same payload' payload) {key : JsString}
    (hnone : Record.get payload key = none) : Record.get payload' key = none := by
  have hread := h key
  rw [hnone] at hread
  exact Option.map_eq_none_iff.mp hread

/-- The paths are the same in payloads that read alike. -/
theorem pathTexts_congr (spec : OpSpec) (h : Record.Same payload' payload) :
    pathTexts spec payload' = pathTexts spec payload := by
  unfold pathTexts
  refine List.filterMap_congr fun field _ => ?_
  have hread := h (js field)
  cases hvalue' : Record.get payload' (js field) with
  | none =>
    rw [hvalue'] at hread
    rw [Option.map_eq_none_iff.mp hread.symm]
  | some value' =>
    rw [hvalue'] at hread
    obtain ⟨value, hvalue, hsame⟩ := Option.map_eq_some_iff.mp hread.symm
    rw [hvalue]
    cases JsValue.Same.cases hsame <;> rfl

/-- The further condition on a payload does not tell records apart that read alike. -/
theorem payloadRefinement_congr (h : Record.Same payload' payload) (name : String) :
    payloadRefinement name (.obj payload') = payloadRefinement name (.obj payload) := by
  unfold payloadRefinement
  simp only [JsValue.hasMember, h.has_eq]

end

/-! ## Calls -/

section

variable (issueMessage : JsValue → JsString) {form value : JsValue} {path : JsString}
  {segments : List PathSegment}

/-- The schema takes a form of an operation, and the handler of the operation is run with a
payload that reads alike. -/
structure Calls (issueMessage : JsValue → JsString) (form : JsValue) (payload : Record JsValue)
    (handler : OpHandler) : Prop where
  /-- The schema takes the form. -/
  accepted : yOpSchema form = true
  /-- The handler is run. -/
  runs : ∃ payload', Record.Same payload' payload ∧
    ∀ doc, applyStep issueMessage form doc = (handler doc payload' 0).toOption

/-- A form of an operation whose payload is right calls its handler. -/
theorem calls_of_same {spec : OpSpec} {fields : List ShapeField} {payload : Record JsValue}
    {handler : OpHandler} (hzip : (spec, fields) ∈ operations.zip (payloadFields.map Prod.snd))
    (hhandler : getHandler (js spec.name) = some handler)
    (hsteady : ∀ f ∈ fields, Steady f.shape) (hclosed : Shape.closed fields (.obj payload) = true)
    (hrefined : payloadRefinement spec.name (.obj payload) = true)
    (hparse : ∀ path ∈ pathTexts spec payload, ∃ segments, tryParsePath path = .ok segments)
    (h : JsValue.Same form (.obj [(js spec.name, .obj payload)])) :
    Calls issueMessage form payload handler := by
  obtain ⟨op, payload', rfl, hkeys, hbody, hsame⟩ := exists_payload_of_same h
  have hfits := fits_of_payload hzip hkeys hbody ((closed_congr hsteady hsame).trans hclosed)
    ((payloadRefinement_congr hsame spec.name).trans hrefined)
  refine ⟨unionSchema_iff.mpr ⟨op, spec, payload', rfl, hfits⟩, payload', hsame, fun doc => ?_⟩
  exact applyStep_of_fits hfits hhandler (by rwa [pathTexts_congr spec hsame])

/-- The shapes of the members of an assertion are steady. -/
theorem steady_assert : ∀ f ∈ [(⟨"path", .string 1 none, false⟩ : ShapeField),
    ⟨"equals", yValueSchema, true⟩, ⟨"exists", .boolean, true⟩,
    ⟨"type", .word ["mapping", "sequence", "scalar"], true⟩], Steady f.shape := by
  simp only [List.forall_mem_cons]
  exact ⟨steady_string _ _, steady_yValueSchema, steady_boolean, steady_word _,
    fun _ h => absurd h List.not_mem_nil⟩

/-- A form of an assertion of a value asserts. -/
theorem calls_assertEquals (hne : path ≠ []) (hparse : tryParsePath path = .ok segments)
    (h : JsValue.Same form (assertEquals path value)) :
    Calls issueMessage form [(js "path", .str path), (js "equals", value)] assertHandler := by
  have hzip := List.mem_of_getElem? (l := operations.zip (payloadFields.map Prod.snd)) (i := 17) rfl
  refine calls_of_same issueMessage hzip rfl steady_assert ?_ rfl (parses_pathTexts rfl hparse) h
  change (pathSchema (.str path) && (yValueSchema value && true)) = true
  rw [pathSchema_str hne, yValueSchema_eq_true, Bool.and_true, Bool.and_true]

/-- A form of an assertion that nothing is at a path asserts. -/
theorem calls_assertAbsent (hne : path ≠ []) (hparse : tryParsePath path = .ok segments)
    (h : JsValue.Same form (assertAbsent path)) :
    Calls issueMessage form [(js "path", .str path), (js "exists", .bool false)]
      assertHandler := by
  have hzip := List.mem_of_getElem? (l := operations.zip (payloadFields.map Prod.snd)) (i := 17) rfl
  refine calls_of_same issueMessage hzip rfl steady_assert ?_ rfl (parses_pathTexts rfl hparse) h
  change (pathSchema (.str path) && true) = true
  rw [pathSchema_str hne, Bool.and_true]

/-- A form of a write sets. -/
theorem calls_setValue (hne : path ≠ []) (hparse : tryParsePath path = .ok segments)
    (h : JsValue.Same form (setValue path value)) :
    Calls issueMessage form [(js "path", .str path), (js "value", value)] setHandler := by
  have hzip := List.mem_of_getElem? (l := operations.zip (payloadFields.map Prod.snd)) (i := 3) rfl
  refine calls_of_same issueMessage hzip rfl ?_ ?_ rfl (parses_pathTexts rfl hparse) h
  · simp only [List.forall_mem_cons]
    exact ⟨steady_string _ _, steady_yValueSchema, fun _ h => absurd h List.not_mem_nil⟩
  · change (pathSchema (.str path) && (yValueSchema value && true)) = true
    rw [pathSchema_str hne, yValueSchema_eq_true, Bool.and_true, Bool.and_true]

/-- A form of a removal unsets. -/
theorem calls_unsetKey (hne : path ≠ []) (hparse : tryParsePath path = .ok segments)
    (h : JsValue.Same form (unsetKey path)) :
    Calls issueMessage form [(js "path", .str path)] unsetHandler := by
  have hzip := List.mem_of_getElem? (l := operations.zip (payloadFields.map Prod.snd)) (i := 4) rfl
  refine calls_of_same issueMessage hzip rfl ?_ ?_ rfl (parses_pathTexts rfl hparse) h
  · simp only [List.forall_mem_cons]
    exact ⟨steady_string _ _, fun _ h => absurd h List.not_mem_nil⟩
  · change (pathSchema (.str path) && true) = true
    rw [pathSchema_str hne, Bool.and_true]

end

end T3x.Yops
