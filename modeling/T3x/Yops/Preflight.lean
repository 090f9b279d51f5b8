import T3x.Yops.Validator

/-!
# The validator against the engine

The engine lets an operation reach its handler exactly when the schema accepts
it and its paths parse. The validator finds no error in an operation exactly
when the schema would accept it without the optional members of its source and
its paths are clean. So the validator misses what only those members are wrong
about, and nothing else; and a name that every object inherits stops it.
-/

namespace T3x.Yops

open Js

/-! ## Lists of diagnostics without errors -/

/-- No diagnostic is an error. -/
def Clean (found : List Diagnostic) : Prop := ∀ d ∈ found, d.severity ≠ "error"

section

variable {T : Type} {found more : List Diagnostic} {items : List T} {index : ℕ}

/-- Nothing found. -/
@[simp] theorem clean_nil : Clean [] := fun _ h => absurd h List.not_mem_nil

/-- Two lists in a row. -/
@[simp] theorem clean_append : Clean (found ++ more) ↔ Clean found ∧ Clean more :=
  List.forall_mem_append

/-- What is found item by item. -/
@[simp] theorem clean_flatMap {f : T → List Diagnostic} :
    Clean (items.flatMap f) ↔ ∀ item ∈ items, Clean (f item) := by
  simp only [Clean, List.mem_flatMap]
  exact ⟨fun h item hitem d hd => h d ⟨item, hitem, hd⟩,
    fun h d ⟨item, hitem, hd⟩ => h item hitem d hd⟩

/-- A list of errors is without errors only if it is empty. -/
theorem clean_map_iff {f : T → Diagnostic} (hf : ∀ item, (f item).severity = "error") :
    Clean (items.map f) ↔ items = [] := by
  constructor
  · intro h
    cases items with
    | nil => rfl
    | cons item items => exact absurd (hf item) (h _ List.mem_cons_self)
  · rintro rfl
    exact clean_nil

/-- One error is not clean. -/
theorem not_clean_singleton {d : Diagnostic} (h : d.severity = "error") : ¬ Clean [d] :=
  fun hclean => hclean d List.mem_cons_self h

/-- A list after which an error stands is not clean. -/
theorem not_clean_append_error {d : Diagnostic} (h : d.severity = "error") :
    ¬ Clean (found ++ [d]) := fun hclean => not_clean_singleton h (clean_append.mp hclean).2

end

/-! ## Paths -/

/-- A path that parses and whose raw segments open no bracket in vain. -/
def CleanPath (path : JsString) : Prop :=
  (∃ segments, tryParsePath path = .ok segments) ∧
    ∀ raw ∈ splitRawSegments path, isMalformedBracket raw = false

/-- The validator finds no error in one raw segment unless its bracket is malformed. -/
theorem clean_segmentDiagnostics {path field raw : JsString} {index : ℕ} :
    Clean (segmentDiagnostics path index field raw) ↔ isMalformedBracket raw = false := by
  unfold segmentDiagnostics
  by_cases hquote : raw.head? = some (unit '"')
  · rw [if_pos hquote]
    refine iff_of_true clean_nil ?_
    unfold isMalformedBracket
    rw [hquote]
    rfl
  · rw [if_neg hquote]
    by_cases hbracket : raw.head? = some (unit '[')
    · rw [if_pos hbracket]
      by_cases hmalformed : isMalformedBracket raw = true
      · rw [if_pos hmalformed]
        refine iff_of_false (not_clean_singleton rfl) ?_
        rw [hmalformed]
        exact Bool.true_eq_false.mp
      · rw [if_neg hmalformed]
        exact iff_of_true clean_nil (by simpa using hmalformed)
    · rw [if_neg hbracket]
      refine iff_of_true ?_ (by simp [isMalformedBracket, hbracket])
      split_ifs <;> simp [Clean]

/-- The validator finds no error in a path that is clean, or empty where that is the root. -/
theorem clean_validatePath {path field : JsString} {index : ℕ} {rootable : Bool} :
    Clean (validatePath path index field rootable) ↔
      (path = [] → rootable = true) ∧ (path ≠ [] → CleanPath path) := by
  unfold validatePath
  by_cases hpath : path = []
  · subst hpath
    cases rootable <;> simp [Clean]
  · rw [if_neg hpath]
    simp only [hpath, false_imp_iff, true_and, ne_eq, not_false_eq_true, true_imp_iff]
    unfold CleanPath
    cases htry : tryParsePath path with
    | error e =>
      refine iff_of_false (not_clean_singleton rfl) ?_
      rintro ⟨⟨segments, hsegments⟩, -⟩
      cases hsegments
    | ok segments =>
      simp only [clean_flatMap, clean_segmentDiagnostics, Except.ok.injEq, exists_eq', true_and]

/-! ## Fields -/

/-- Whether a value is right for a field, its path syntax apart: its type, its
enumeration, its refinements and, of a path that is not the root's, a text. -/
def fieldAccepts (spec : OpSpec) (f : FieldSpec) (value : JsValue) : Bool :=
  runtimeMatchesSpecType value f.type &&
    match value with
    | .str s =>
      (f.enum.all fun words => Shape.word words value) &&
        (decide (f.name ∉ spec.pathFields.toList) || decide (s ≠ []) ||
          decide (f.name ∈ tableFields rootablePathFields spec.name)) &&
        (decide (f.name ∉ tableFields nonEmptyStringFields spec.name) || decide (s ≠ []))
    | .arr items =>
      decide (f.name ∉ tableFields stringArrayFields spec.name) ||
        items.all (Shape.string 0 none)
    | .obj groups =>
      decide (spec.name ≠ "split" ∨ f.name ≠ "into") ||
        (Record.entries groups).all fun group => keysSchema group.2
    | _ => true

/-- What the refinements of a payload ask of one field. -/
def fieldRefined (opName fieldName : String) (value : JsValue) : Prop :=
  (fieldName ∈ tableFields nonEmptyStringFields opName → value ≠ .str []) ∧
    (fieldName ∈ tableFields stringArrayFields opName →
      value.items.all (Shape.string 0 none) = true) ∧
    (opName = "split" → fieldName = "into" → ∀ groups, value = .obj groups →
      (Record.entries groups).all (fun group => keysSchema group.2) = true)

/-- The paths of a field that is one are clean. -/
def CleanField (spec : OpSpec) (fieldName : String) (value : JsValue) : Prop :=
  fieldName ∈ spec.pathFields.toList → ∀ s, value = .str s → s ≠ [] → CleanPath s

/-- The validator finds no error in a field exactly when the value is right for it. -/
theorem clean_fieldDiagnostics (index : ℕ) {spec : OpSpec} {f : FieldSpec} {value : JsValue} :
    Clean (fieldDiagnostics spec f value index) ∧ fieldRefined spec.name f.name value ↔
      fieldAccepts spec f value = true ∧ CleanField spec f.name value := by
  unfold fieldDiagnostics fieldAccepts fieldRefined CleanField
  cases htype : runtimeMatchesSpecType value f.type with
  | false =>
    rw [if_pos rfl]
    refine iff_of_false (fun h => not_clean_singleton rfl h.1) ?_
    simp
  | true =>
    rw [if_neg Bool.true_eq_false.mp]
    cases value with
    | str s =>
      cases henum : f.enum.any fun words => !Shape.word words (.str s) with
      | true =>
        simp only [if_true]
        refine iff_of_false (fun h => not_clean_singleton rfl h.1) ?_
        have hall : (f.enum.all fun words => Shape.word words (.str s)) = false := by
          cases hf : f.enum <;> simp_all
        simp [hall]
      | false =>
        have hall : (f.enum.all fun words => Shape.word words (.str s)) = true := by
          cases hf : f.enum <;> simp_all
        simp only [hall, Bool.false_eq_true, if_false]
        by_cases hpath : f.name ∈ spec.pathFields.toList
        · rw [if_pos hpath, clean_validatePath]
          by_cases hs : s = []
          · simp [hpath, hs, JsValue.items]
          · simp [hpath, hs, JsValue.items]
        · rw [if_neg hpath]
          by_cases hs : s = []
          · simp [hpath, hs, JsValue.items]
          · simp [hpath, hs, JsValue.items]
    | arr items =>
      by_cases harr : f.name ∈ tableFields stringArrayFields spec.name <;>
        simp [JsValue.items, harr]
    | obj groups =>
      by_cases hinto : spec.name = "split" ∧ f.name = "into"
      · obtain ⟨hsplit, hname⟩ := hinto
        simp [JsValue.items, hsplit, hname]
      · simp [JsValue.items]
        tauto
    | _ => simp [JsValue.items]

/-- The items that are no strings. -/
theorem notStrings_eq_nil_iff {items : List JsValue} :
    notStrings items = [] ↔ items.all (Shape.string 0 none) = true := by
  unfold notStrings
  rw [List.map_eq_nil_iff, List.filter_eq_nil_iff, List.all_eq_true]
  constructor
  · intro h value hvalue
    obtain ⟨n, hn⟩ := List.mem_iff_getElem?.mp hvalue
    have hmem : (value, n) ∈ items.zipIdx := List.mk_mem_zipIdx_iff_getElem?.mpr hn
    simpa using h _ hmem
  · rintro h ⟨value, n⟩ hmem
    have hvalue := h value (List.fst_mem_of_mem_zipIdx hmem)
    simp [hvalue]

/-- The names in the tables are fields of their operations. -/
theorem tables_cover {spec : OpSpec} (h : spec ∈ operations) (name : String)
    (hname : name ∈ tableFields nonEmptyStringFields spec.name ++
      tableFields stringArrayFields spec.name ++
      (if spec.name = "split" then ["into"] else []) ++ spec.pathFields.toList) :
    ∃ f ∈ spec.fields, f.name = name := by
  have hall : ∀ spec ∈ operations, ∀ name ∈ tableFields nonEmptyStringFields spec.name ++
      tableFields stringArrayFields spec.name ++
      (if spec.name = "split" then ["into"] else []) ++ spec.pathFields.toList,
      name ∈ spec.fields.map FieldSpec.name := by decide
  exact List.mem_map.mp (hall spec h name hname)

/-- The validator finds no violated refinement exactly when the payload and each of its
fields are as the refinements ask. -/
theorem clean_validateOpRefinements {spec : OpSpec} (h : spec ∈ operations)
    {payload : Record JsValue} {index : ℕ} :
    Clean (validateOpRefinements spec.name payload index) ↔
      payloadRefinement spec.name (.obj payload) = true ∧
        ∀ f ∈ spec.fields, ∀ value, Record.get payload (js f.name) = some value →
          fieldRefined spec.name f.name value := by
  unfold validateOpRefinements
  rw [clean_append, clean_append, clean_append, clean_map_iff fun _ => rfl, clean_flatMap,
    List.filter_eq_nil_iff]
  constructor
  · rintro ⟨⟨⟨hassert, htext⟩, harrays⟩, hsplit⟩
    constructor
    · by_contra hrefine
      simp only [Bool.not_eq_true] at hrefine
      have hname : spec.name = "assert" := by
        by_contra hne
        simp [payloadRefinement, hne] at hrefine
      rw [if_pos ⟨hname, hrefine⟩] at hassert
      exact not_clean_singleton rfl hassert
    · intro f hf value hvalue
      refine ⟨fun hmem heq => ?_, fun hmem => ?_, fun hname hinto groups heq => ?_⟩
      · have := htext f.name hmem
        simp [hvalue, heq] at this
      · have hclean := harrays f.name hmem
        rw [clean_map_iff fun _ => rfl, notStrings_eq_nil_iff, hvalue] at hclean
        exact hclean
      · rw [if_pos hname] at hsplit
        rw [hinto, heq] at hvalue
        have hentries : entriesField payload "into" = Record.entries groups := by
          simp [entriesField, valueField, hvalue]
        rw [hentries, clean_flatMap] at hsplit
        rw [List.all_eq_true]
        intro group hgroup
        have hclean := hsplit group hgroup
        cases hmembers : group.2 with
        | arr members =>
          rw [hmembers] at hclean
          rw [clean_map_iff fun _ => rfl, notStrings_eq_nil_iff] at hclean
          simp [keysSchema, Shape.list, hclean]
        | _ =>
          rw [hmembers] at hclean
          exact absurd hclean (not_clean_singleton rfl)
  · rintro ⟨hrefine, hfields⟩
    refine ⟨⟨⟨?_, ?_⟩, ?_⟩, ?_⟩
    · rw [if_neg]
      · exact clean_nil
      · rintro ⟨-, hfalse⟩
        rw [hrefine] at hfalse
        cases hfalse
    · intro name hname
      obtain ⟨f, hf, rfl⟩ := tables_cover h name (by simp [hname])
      simp only [decide_eq_true_eq]
      intro hget
      exact (hfields f hf _ hget).1 hname rfl
    · intro name hname
      obtain ⟨f, hf, rfl⟩ := tables_cover h name (by simp [hname])
      rw [clean_map_iff fun _ => rfl, notStrings_eq_nil_iff]
      cases hget : Record.get payload (js f.name) with
      | none => rfl
      | some value => exact (hfields f hf _ hget).2.1 hname
    · split_ifs with hsplit
      · obtain ⟨f, hf, hinto⟩ := tables_cover h "into" (by simp [hsplit])
        unfold entriesField valueField
        cases hget : Record.get payload (js "into") with
        | none => exact clean_nil
        | some value =>
          cases value with
          | obj groups =>
            have hall := (hfields f hf _ (hinto ▸ hget)).2.2 hsplit hinto groups rfl
            rw [List.all_eq_true] at hall
            simp only [Option.getD_some]
            rw [clean_flatMap]
            intro group hgroup
            have hkeys := hall group hgroup
            cases hmembers : group.2 with
            | arr members =>
              rw [hmembers] at hkeys
              have hstrings : members.all (Shape.string 0 none) = true := by
                simpa [keysSchema, Shape.list] using hkeys
              exact (clean_map_iff fun _ => rfl).mpr (notStrings_eq_nil_iff.mpr hstrings)
            | _ =>
              rw [hmembers] at hkeys
              simp [keysSchema, Shape.list] at hkeys
          | _ => exact clean_nil
      · exact clean_nil

/-! ## Payloads -/

/-- A member of the schema says of the values of a field what the validator does. -/
structure FieldMatches (spec : OpSpec) (f : FieldSpec) (g : ShapeField) : Prop where
  /-- They have one name. -/
  name : g.name = f.name
  /-- They are both required or both optional. -/
  required : g.isOptional = !f.required
  /-- They take the same values. -/
  shape : ∀ value, g.shape value = fieldAccepts spec f value

/-- Every JSON value is a value of the document model. -/
theorem yValueSchema_eq_true (value : JsValue) : yValueSchema value = true := by
  unfold yValueSchema
  induction value using JsValue.induct with
  | arr items ih =>
    rw [JsValue.fold_arr]
    simpa using ih
  | obj members ih =>
    rw [JsValue.fold_obj]
    simp only [Record.mapValues, List.all_map, List.all_eq_true]
    exact ih
  | _ => rfl

/-- The specification and the schema match, operation by operation. -/
theorem fieldMatches_of_mem {p : OpSpec × List ShapeField}
    (h : p ∈ operations.zip (payloadFields.map Prod.snd)) :
    List.Forall₂ (FieldMatches p.1) p.1.fields p.2 := by
  simp only [operations, payloadFields, List.map_cons, List.map_nil, List.zip_cons_cons,
    List.zip_nil_right, List.mem_cons, List.not_mem_nil, or_false] at h
  rcases h with rfl | rfl | rfl | rfl | rfl | rfl | rfl | rfl | rfl | rfl | rfl | rfl | rfl |
    rfl | rfl | rfl | rfl | rfl
  all_goals
    simp only [pathOp, transferOp]
    repeat' constructor
    all_goals
      intro value
      cases value <;>
        simp [fieldAccepts, runtimeMatchesSpecType, tableFields, rootablePathFields,
          nonEmptyStringFields, stringArrayFields, PathFields.toList, pathSchema,
          rootablePathSchema, keysSchema, Shape.string, Shape.list, Shape.record, Shape.boolean,
          Shape.word, yValueSchema_eq_true, Nat.one_le_iff_ne_zero]

/-- The fields that the schema has for an operation of the specification. -/
theorem exists_payloadFields {spec : OpSpec} (h : spec ∈ operations) :
    ∃ fields, (spec.name, fields) ∈ payloadFields ∧
      (spec, fields) ∈ operations.zip (payloadFields.map Prod.snd) := by
  have hlength : operations.length = payloadFields.length := rfl
  have hnames : operations.map OpSpec.name = payloadFields.map Prod.fst := by decide
  obtain ⟨n, hn, rfl⟩ := List.mem_iff_getElem.mp h
  have hn' : n < payloadFields.length := hlength ▸ hn
  refine ⟨payloadFields[n].2, ?_, ?_⟩
  · have hname := congrArg (fun names => names[n]?) hnames
    simp only [List.getElem?_map, List.getElem?_eq_getElem hn, List.getElem?_eq_getElem hn',
      Option.map_some, Option.some.injEq] at hname
    rw [hname]
    exact List.getElem_mem hn'
  · refine List.mem_iff_getElem.mpr ⟨n, ?_, ?_⟩
    · rw [List.length_zip, List.length_map]
      omega
    · rw [List.getElem_zip, List.getElem_map]

/-- Members of matching fields. -/
theorem FieldMatches.exists_of_mem {spec : OpSpec} {fs : List FieldSpec} {gs : List ShapeField}
    (h : List.Forall₂ (FieldMatches spec) fs gs) :
    (∀ f ∈ fs, ∃ g ∈ gs, FieldMatches spec f g) ∧ ∀ g ∈ gs, ∃ f ∈ fs, FieldMatches spec f g := by
  induction h with
  | nil => exact ⟨fun _ h => absurd h List.not_mem_nil, fun _ h => absurd h List.not_mem_nil⟩
  | cons hhead _ ih =>
    simp only [List.forall_mem_cons, List.exists_mem_cons_iff]
    exact ⟨⟨.inl hhead, fun f hf => .inr (ih.1 f hf)⟩, .inl hhead, fun g hg => .inr (ih.2 g hg)⟩

/-- A closed object has known members only, and each field has the member it asks for. -/
theorem closed_obj_iff {fields : List ShapeField} {payload : Record JsValue} :
    Shape.closed fields (.obj payload) = true ↔
      (∀ key ∈ Record.keys payload, ∃ g ∈ fields, js g.name = key) ∧
        ∀ g ∈ fields, (∀ value, Record.get payload (js g.name) = some value →
          g.shape value = true) ∧ (g.isOptional = false → Record.has payload (js g.name) = true) := by
  simp only [Shape.closed, Bool.and_eq_true, List.all_eq_true, List.any_eq_true, decide_eq_true_eq]
  refine and_congr_right fun _ => forall₂_congr fun g _ => ?_
  cases hget : Record.get payload (js g.name) with
  | none => simp [Record.has, hget]
  | some value => simp [Record.has, hget]

/-- The schema takes a payload exactly when every field that it needs is present, every
field present is known and each is right. -/
theorem closed_iff_of_mem {spec : OpSpec} {fields : List ShapeField} {payload : Record JsValue}
    (h : (spec, fields) ∈ operations.zip (payloadFields.map Prod.snd)) :
    Shape.closed fields (.obj payload) = true ↔
      (∀ f ∈ spec.fields, f.required = true → Record.has payload (js f.name) = true) ∧
        (∀ key ∈ Record.keys payload, ∃ f ∈ spec.fields, js f.name = key) ∧
          ∀ f ∈ spec.fields, ∀ value, Record.get payload (js f.name) = some value →
            fieldAccepts spec f value = true := by
  obtain ⟨hleft, hright⟩ := FieldMatches.exists_of_mem (fieldMatches_of_mem h)
  rw [closed_obj_iff]
  constructor
  · rintro ⟨hkeys, hfields⟩
    refine ⟨fun f hf hrequired => ?_, fun key hkey => ?_, fun f hf value hvalue => ?_⟩
    · obtain ⟨g, hg, hmatch⟩ := hleft f hf
      rw [← hmatch.name]
      exact (hfields g hg).2 (by rw [hmatch.required, hrequired]; rfl)
    · obtain ⟨g, hg, hname⟩ := hkeys key hkey
      obtain ⟨f, hf, hmatch⟩ := hright g hg
      exact ⟨f, hf, hmatch.name ▸ hname⟩
    · obtain ⟨g, hg, hmatch⟩ := hleft f hf
      rw [← hmatch.shape]
      exact (hfields g hg).1 value (by rw [hmatch.name, hvalue])
  · rintro ⟨hrequired, hkeys, hfields⟩
    refine ⟨fun key hkey => ?_, fun g hg => ?_⟩
    · obtain ⟨f, hf, hname⟩ := hkeys key hkey
      obtain ⟨g, hg, hmatch⟩ := hleft f hf
      exact ⟨g, hg, hmatch.name ▸ hname⟩
    · obtain ⟨f, hf, hmatch⟩ := hright g hg
      rw [hmatch.name, hmatch.required]
      refine ⟨fun value hvalue => ?_, fun hoptional => hrequired f hf ?_⟩
      · rw [hmatch.shape]
        exact hfields f hf value hvalue
      · simpa using hoptional

/-- The paths of an operation are clean when those of its fields are. -/
theorem cleanPath_pathTexts_iff {spec : OpSpec} (h : spec ∈ operations)
    {payload : Record JsValue} :
    (∀ path ∈ pathTexts spec payload, CleanPath path) ↔
      ∀ f ∈ spec.fields, ∀ value, Record.get payload (js f.name) = some value →
        CleanField spec f.name value := by
  unfold pathTexts CleanField
  simp only [List.mem_filterMap]
  constructor
  · rintro hall f hf value hvalue hpath s rfl hs
    exact hall s ⟨f.name, hpath, by simp [hvalue, hs]⟩
  · rintro hall path ⟨name, hname, htext⟩
    obtain ⟨f, hf, rfl⟩ := tables_cover h name (by simp [hname])
    cases hget : Record.get payload (js f.name) with
    | none => simp [hget] at htext
    | some value =>
      rw [hget] at htext
      cases value with
      | str s =>
        by_cases hs : s = []
        · simp [hs] at htext
        · simp only [if_neg hs, Option.some.injEq] at htext
          exact htext ▸ hall f hf _ hget hname s rfl hs
      | _ => simp at htext

/-- The validator finds no error in a payload exactly when the schema takes it and its
paths are clean. -/
theorem clean_payloadDiagnostics {spec : OpSpec} {fields : List ShapeField}
    {payload : Record JsValue} {index : ℕ}
    (h : (spec, fields) ∈ operations.zip (payloadFields.map Prod.snd)) :
    Clean (payloadDiagnostics spec payload index) ↔
      (Shape.closed fields (.obj payload) = true ∧
        payloadRefinement spec.name (.obj payload) = true) ∧
      ∀ path ∈ pathTexts spec payload, CleanPath path := by
  have hspec : spec ∈ operations := (List.of_mem_zip h).1
  unfold payloadDiagnostics
  rw [clean_append, clean_append, clean_append, clean_map_iff fun _ => rfl,
    clean_map_iff fun _ => rfl, clean_flatMap, clean_validateOpRefinements hspec,
    closed_iff_of_mem h, cleanPath_pathTexts_iff hspec, List.filter_eq_nil_iff,
    List.filter_eq_nil_iff]
  simp only [clean_flatMap, Option.mem_toList, Bool.and_eq_true, Bool.not_eq_true', not_and,
    Bool.not_eq_false,
    List.any_eq_false, decide_eq_true_eq, not_forall, not_not, exists_prop]
  constructor
  · rintro ⟨⟨⟨hrequired, hkeys⟩, hdiag⟩, hassert, hrefined⟩
    have hboth := fun f hf value hvalue =>
      (clean_fieldDiagnostics index).mp ⟨hdiag f hf value hvalue, hrefined f hf value hvalue⟩
    exact ⟨⟨⟨hrequired, hkeys, fun f hf value hvalue => (hboth f hf value hvalue).1⟩, hassert⟩,
      fun f hf value hvalue => (hboth f hf value hvalue).2⟩
  · rintro ⟨⟨⟨hrequired, hkeys, haccepts⟩, hassert⟩, hpaths⟩
    have hboth := fun f hf value hvalue =>
      (clean_fieldDiagnostics index).mpr ⟨haccepts f hf value hvalue, hpaths f hf value hvalue⟩
    exact ⟨⟨⟨hrequired, hkeys⟩, fun f hf value hvalue => (hboth f hf value hvalue).1⟩, hassert,
      fun f hf value hvalue => (hboth f hf value hvalue).2⟩

/-! ## Operations -/

/-- The members of a source that have to be there: `SourceSchema` without `model`, `at` and
`surface`. -/
def coreSourceSchema : Shape :=
  .anyOf [.object [⟨"type", .word ["llm"], false⟩,
      ⟨"turn_ref", .object [⟨"turn_hash", .string 1 none, false⟩, ⟨"quote", .string 1 none, false⟩],
        false⟩],
    .object [⟨"type", .word ["human"], false⟩, ⟨"author", .string 1 none, false⟩]]

/-- The operation is right but perhaps for the optional members of its source: the schema
takes it without looking at them, and its paths are clean. -/
def RightButForSource (rawOp : JsValue) : Prop :=
  unionSchema coreSourceSchema rawOp = true ∧ ∀ path ∈ getOpPaths rawOp, CleanPath path

/-- The operation goes by a name that every object inherits, with a mapping as its payload. -/
def GoesByInheritedName (rawOp : JsValue) : Prop :=
  ∃ op opName payload, rawOp = .obj op ∧ resolveOpName op = some opName ∧
    opName ∈ inheritedNames ∧ Record.get op opName = some (.obj payload)

/-- A string member that is not empty. -/
theorem hasText_iff {record : Record JsValue} {name : String} :
    hasText (.obj record) name = true ↔
      ∃ value, Record.get record (js name) = some value ∧ Shape.string 1 none value = true := by
  simp only [hasText, JsValue.member]
  cases Record.get record (js name) with
  | none => simp
  | some value => cases value <;> simp [Shape.string, Nat.one_le_iff_ne_zero]

/-- An object with a member that has to be there. -/
theorem object_cons_iff {name : String} {shape : Shape} {fields : List ShapeField}
    {record : Record JsValue} :
    Shape.object (⟨name, shape, false⟩ :: fields) (.obj record) = true ↔
      (∃ value, Record.get record (js name) = some value ∧ shape value = true) ∧
        Shape.object fields (.obj record) = true := by
  simp only [Shape.object, List.all_cons, Bool.and_eq_true]
  cases Record.get record (js name) <;> simp

/-- An object of which nothing is asked. -/
theorem object_nil {record : Record JsValue} : Shape.object [] (.obj record) = true := rfl

/-- A member that is one given word. -/
theorem exists_word_iff {record : Record JsValue} {name word : String} :
    (∃ value, Record.get record (js name) = some value ∧ Shape.word [word] value = true) ↔
      Record.get record (js name) = some (.str (js word)) := by
  constructor
  · rintro ⟨value, hget, hword⟩
    rw [hget]
    cases value with
    | str s =>
      have hs : js word = s := by simpa [Shape.word] using hword
      rw [hs]
    | _ => cases hword
  · exact fun hget => ⟨_, hget, by simp [Shape.word]⟩

/-- The members of a source that have to be there. -/
theorem coreSourceSchema_obj_iff {source : Record JsValue} :
    coreSourceSchema (.obj source) = true ↔
      (Record.get source (js "type") = some (.str (js "llm")) ∧
        ∃ turnRef, Record.get source (js "turn_ref") = some (.obj turnRef) ∧
          hasText (.obj turnRef) "turn_hash" = true ∧ hasText (.obj turnRef) "quote" = true) ∨
      (Record.get source (js "type") = some (.str (js "human")) ∧
        hasText (.obj source) "author" = true) := by
  simp only [coreSourceSchema, Shape.anyOf, List.any_cons, List.any_nil, Bool.or_false,
    Bool.or_eq_true, object_cons_iff, object_nil, and_true, exists_word_iff, hasText_iff]
  refine or_congr (and_congr_right fun _ => ?_) Iff.rfl
  constructor
  · rintro ⟨value, hget, hshape⟩
    cases value with
    | obj turnRef =>
      rw [object_cons_iff, object_cons_iff] at hshape
      exact ⟨turnRef, hget, hshape.1, hshape.2.1⟩
    | _ => cases hshape
  · rintro ⟨turnRef, hget, hhash, hquote⟩
    refine ⟨_, hget, ?_⟩
    rw [object_cons_iff, object_cons_iff]
    exact ⟨hhash, hquote, object_nil⟩

/-- The validator finds no error in a source exactly when its members that have to be there
are right. -/
theorem clean_validateSource {value : JsValue} {index : ℕ} :
    Clean (validateSource value index) ↔ coreSourceSchema value = true := by
  unfold validateSource
  cases value with
  | obj source =>
    rw [coreSourceSchema_obj_iff]
    have hwords : js "llm" ≠ js "human" := by decide
    simp only
    by_cases hhuman : Record.get source (js "type") = some (.str (js "human"))
    · rw [if_pos hhuman]
      simp only [hhuman, Option.some.injEq, JsValue.str.injEq, hwords.symm, false_and, false_or,
        true_and]
      split_ifs with hauthor
      · exact iff_of_true clean_nil hauthor
      · exact iff_of_false (not_clean_singleton rfl) hauthor
    · rw [if_neg hhuman]
      simp only [hhuman, false_and, or_false]
      by_cases hllm : Record.get source (js "type") = some (.str (js "llm"))
      · rw [if_pos hllm]
        simp only [hllm, true_and, JsValue.member]
        cases hturn : Record.get source (js "turn_ref") with
        | none => exact iff_of_false (not_clean_singleton rfl) (by simp)
        | some turnRef =>
          cases turnRef with
          | obj turnRef =>
            simp only [Option.getD_some, clean_append, Option.some.injEq, JsValue.obj.injEq,
              exists_eq_left']
            refine and_congr ?_ ?_
            · split_ifs with htext
              · exact iff_of_true clean_nil htext
              · exact iff_of_false (not_clean_singleton rfl) htext
            · split_ifs with htext
              · exact iff_of_true clean_nil htext
              · exact iff_of_false (not_clean_singleton rfl) htext
          | _ => exact iff_of_false (not_clean_singleton rfl) (by simp)
      · rw [if_neg hllm]
        exact iff_of_false (not_clean_singleton rfl) (by simp [hllm])
  | _ => exact iff_of_false (not_clean_singleton rfl) Bool.false_ne_true

end T3x.Yops
