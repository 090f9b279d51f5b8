import T3x.Yschema.Described

/-!
# A schema as a value

The schema that the reading returns is an object, whose members are the fields that
are set, under their first names. So it can be read again, and the members of a slot
and of a node say once more what they said, but for one: an array of no values
declares a slot with an empty enumeration, and a mapping may not.
-/

namespace T3x.Yschema

open Js

/-! ## Objects of set fields -/

/-- The object of the fields that are set. -/
def present (fields : List (String × Option JsValue)) : Record JsValue :=
  fields.filterMap fun field => field.2.map fun value => (js field.1, value)

/-- The names of fields. -/
def fieldNames (fields : List (String × Option JsValue)) : List JsString :=
  fields.map fun field => js field.1

section

variable {fields : List (String × Option JsValue)}

/-- Only the names of the fields are names of the object. -/
theorem mem_fieldNames_of_has {key : JsString} (h : Record.has (present fields) key = true) :
    key ∈ fieldNames fields := by
  obtain ⟨value, hvalue⟩ := Record.has_eq_true.mp h
  obtain ⟨field, hfield, hmap⟩ := List.mem_filterMap.mp (Record.mem_of_get hvalue)
  obtain ⟨v, -, heq⟩ := Option.map_eq_some_iff.mp hmap
  obtain ⟨rfl, -⟩ := Prod.mk.inj heq
  exact List.mem_map_of_mem hfield

/-- Nothing stands under another name. -/
theorem get_present_of_not_mem {key : JsString} (h : key ∉ fieldNames fields) :
    Record.get (present fields) key = none := by
  rw [← Record.has_eq_false, Bool.eq_false_iff]
  exact fun hhas => h (mem_fieldNames_of_has hhas)

/-- What stands under the name of a field. -/
theorem get_present (hnames : (fieldNames fields).Nodup) (name : String) (value : Option JsValue)
    (h : (name, value) ∈ fields) : Record.get (present fields) (js name) = value := by
  induction fields with
  | nil => exact absurd h List.not_mem_nil
  | cons field fields ih =>
    obtain ⟨hnew, hnames⟩ := List.nodup_cons.mp hnames
    change js field.1 ∉ fieldNames fields at hnew
    have hcons : present (field :: fields) =
        (field.2.map fun value => (js field.1, value)).toList ++ present fields := by
      unfold present
      rw [List.filterMap_cons]
      cases field.2 <;> rfl
    rw [hcons, Record.get_append]
    rcases List.mem_cons.mp h with rfl | h
    · cases value with
      | none => simpa [Record.get] using get_present_of_not_mem hnew
      | some value => simp [Record.get]
    · have hmem : js name ∈ fieldNames fields := List.mem_map.mpr ⟨_, h, rfl⟩
      have hne : js field.1 ≠ js name := fun heq => hnew (heq ▸ hmem)
      rw [ih hnames h]
      cases field.2 <;> simp [Record.get, hne]

/-- No field that is set is unknown if the names are. -/
theorem rejectUnknownFields_present {context : JsString} {allowed : List String}
    (h : ∀ name ∈ fieldNames fields, name ∈ allowed.map js) :
    rejectUnknownFields (present fields) context allowed = .ok () := by
  have hnone : ((Record.keys (present fields)).find? fun key =>
      !allowed.any fun field => decide (js field = key)) = none := by
    rw [List.find?_eq_none]
    intro key hkey
    obtain ⟨field, hfield, rfl⟩ := List.mem_map.mp
      (h key (mem_fieldNames_of_has (Record.mem_keys.mp hkey)))
    simp only [Bool.not_eq_true', Bool.not_eq_false, List.any_eq_true, decide_eq_true_eq]
    exact ⟨field, hfield, rfl⟩
  unfold rejectUnknownFields
  rw [hnone]

/-- No field that is set is deprecated if no name is. -/
theorem rejectDeprecatedFields_present {context : JsString}
    (h : ∀ entry ∈ deprecatedFieldReplacements, js entry.1 ∉ fieldNames fields) :
    rejectDeprecatedFields (present fields) context = .ok () := by
  have hnone : (deprecatedFieldReplacements.find? fun entry =>
      Record.has (present fields) (js entry.1)) = none := by
    rw [List.find?_eq_none]
    exact fun entry hentry hhas => h entry hentry (mem_fieldNames_of_has hhas)
  unfold rejectDeprecatedFields
  rw [hnone]

/-- A field is read under its first name. -/
theorem readsField_present {T : Type} {camel snake : String} (value : Option JsValue)
    {read : Option JsValue → Except JsString T} {t : T} (hnames : (fieldNames fields).Nodup)
    (hcamel : (camel, value) ∈ fields) (hsnake : js snake ∉ fieldNames fields)
    (hread : read value = .ok t) : ReadsField (present fields) camel snake read t := by
  refine ⟨value, ?_, hread⟩
  unfold getField
  rw [get_present hnames _ _ hcamel, get_present_of_not_mem hsnake]
  cases value <;> rfl

end

/-! ## Reading what was read -/

/-- A text that was read is read again. -/
theorem asOptionalString_map (s : Option JsString) (context : JsString) :
    asOptionalString (s.map .str) context = .ok s := by
  cases s <;> rfl

/-- A truth value that was read is read again. -/
theorem asOptionalBoolean_map (b : Option Bool) (context : JsString) :
    asOptionalBoolean (b.map .bool) context = .ok b := by
  cases b <;> rfl

/-- A number that was read is read again. -/
theorem asOptionalNumber_map (n : Option JsNumber) (context : JsString) :
    asOptionalNumber (n.map .num) context = .ok n := by
  cases n <;> rfl

/-- Values that were read are read again. -/
theorem asYValueArray_map (items : Option (List JsValue)) (context : JsString) :
    asYValueArray (items.map .arr) context = .ok items := by
  cases items <;> rfl

/-- A kind of content that was read is read again. -/
theorem asOptionalContentKind_map (kind : Option ContentKind) (context : JsString) :
    asOptionalContentKind (kind.map fun kind => .str kind.text) context = .ok kind := by
  match kind with
  | none => rfl
  | some .prose => rfl
  | some .structured => rfl

/-- A type that was read is read again. -/
theorem normalizeType_map (type : Option SlotType) (context : JsString) :
    normalizeType (type.map fun type => .str type.text) context = .ok type := by
  match type with
  | none => rfl
  | some type => cases type <;> rfl

/-- A count that was read is read again. -/
theorem asOptionalCount_map {least : ℕ} {value : Option JsValue} {context : JsString}
    {n : Option JsNumber} (h : asOptionalCount least value context = .ok n) (context' : JsString) :
    asOptionalCount least (n.map .num) context' = .ok n := by
  unfold asOptionalCount at h ⊢
  obtain ⟨read, -, h⟩ := bind_eq_ok_iff.mp h
  refine bind_eq_ok_iff.mpr ⟨n, asOptionalNumber_map n context', ?_⟩
  obtain ⟨hcount, rfl⟩ : _ ∧ read = n := by
    by_cases hcount : (read.all fun n => isInteger n && decide ((least : ℚ) ≤ n.toRat)) = true
    · rw [if_pos hcount] at h
      exact ⟨hcount, Except.ok.inj h⟩
    · rw [if_neg hcount] at h
      cases h
  rw [if_pos hcount]
  rfl

/-- A list that is read item by item is read of the values of the items if each of them is. -/
theorem mapM_zipIdx_map {V W E : Type} {read : V × ℕ → Except E W} {value : W → V} {ws : List W}
    (h : ∀ w ∈ ws, ∀ index, read (value w, index) = .ok w) :
    (ws.map value).zipIdx.mapM read = .ok ws := by
  have hall : ∀ start, List.Forall₂ (fun entry w => read entry = .ok w)
      ((ws.map value).zipIdx start) ws := by
    induction ws with
    | nil => exact fun _ => List.Forall₂.nil
    | cons w ws ih =>
      exact fun start => List.Forall₂.cons (h w List.mem_cons_self start)
        (ih (fun w' hw' => h w' (List.mem_cons_of_mem _ hw')) _)
  exact mapM_eq_ok_iff.mpr (hall 0)

/-- Keys that were read are read again. -/
theorem asKeyArray_map {keys : Option (List JsString)}
    (h : ∀ key ∈ keys.getD [], isKey key = true) (context : JsString) :
    asKeyArray (keys.map fun keys => .arr (keys.map .str)) context = .ok keys := by
  cases keys with
  | none => rfl
  | some keys =>
    unfold asKeyArray
    refine bind_eq_ok_iff.mpr ⟨keys, mapM_zipIdx_map fun key hkey index => ?_, rfl⟩
    exact bind_eq_ok_iff.mpr ⟨(), assertKey_eq_ok_iff.mpr (h key hkey), rfl⟩

/-- The fields of a hint. -/
def YOpsHint.fields (hint : YOpsHint) : List (String × Option JsValue) :=
  [("preferredOp", hint.preferredOp.map .str), ("path", hint.path.map .str),
    ("slot", hint.slot.map .str)]

/-- A hint as a value. -/
def YOpsHint.value (hint : YOpsHint) : JsValue := .obj (present hint.fields)

/-- No field of a hint is there twice. -/
theorem YOpsHint.nodup_fields (hint : YOpsHint) : (fieldNames hint.fields).Nodup := by
  change (["preferredOp", "path", "slot"].map js).Nodup
  decide

/-- A hint that was read is read again. -/
theorem normalizeYOpsHint_map {value : Option JsValue} {context : JsString}
    {hint : Option YOpsHint} (h : normalizeYOpsHint value context = .ok hint)
    (context' : JsString) :
    normalizeYOpsHint (hint.map YOpsHint.value) context' = .ok hint := by
  cases value with
  | none =>
    obtain rfl := Except.ok.inj h
    rfl
  | some value =>
    obtain ⟨raw, described, -, rfl, hdescribes⟩ := normalizeYOpsHint_eq_ok_iff.mp h
    refine normalizeYOpsHint_eq_ok_iff.mpr ⟨_, described, rfl, rfl, ?_⟩
    have hget := get_present described.nodup_fields
    have hop : asPreferredOp (described.preferredOp.map .str) context' =
        .ok described.preferredOp := by
      obtain ⟨rawOp, -, hread⟩ := hdescribes.preferredOp
      cases rawOp with
      | none =>
        rw [← Except.ok.inj hread]
        rfl
      | some op =>
        simp only [asPreferredOp] at hread
        split_ifs at hread with hword
        · obtain ⟨s, rfl⟩ : ∃ s, op = .str s := by
            cases op with
            | str s => exact ⟨s, rfl⟩
            | _ => exact absurd hword Bool.false_ne_true
          rw [← Except.ok.inj hread]
          exact if_pos hword
        · cases hread
    refine ⟨rejectUnknownFields_present ?_, ?_, ?_, hdescribes.path_valid, ?_, hdescribes.slot_valid⟩
    · change ∀ name ∈ ["preferredOp", "path", "slot"].map js, name ∈ yopsHintFields.map js
      decide
    · refine readsField_present (described.preferredOp.map .str) described.nodup_fields
        (by simp [YOpsHint.fields]) ?_ hop
      change js "preferred_op" ∉ ["preferredOp", "path", "slot"].map js
      decide
    · rw [hget "path" (described.path.map .str) (by simp [YOpsHint.fields])]
      exact asOptionalString_map _ _
    · rw [hget "slot" (described.slot.map .str) (by simp [YOpsHint.fields])]
      exact asOptionalString_map _ _

/-! ## Slots -/

/-- The fields of a slot. -/
def SlotSchema.fields (slot : SlotSchema) : List (String × Option JsValue) :=
  [("type", slot.type.map fun type => .str type.text), ("enum", slot.enum.map .arr),
    ("const", slot.const), ("default", slot.default), ("examples", slot.examples.map .arr),
    ("description", slot.description.map .str),
    ("contentGuidance", slot.contentGuidance.map .str),
    ("gapQuestion", slot.gapQuestion.map .str),
    ("contentKind", slot.contentKind.map fun kind => .str kind.text),
    ("minimum", slot.minimum.map .num), ("maximum", slot.maximum.map .num),
    ("minLength", slot.minLength.map .num), ("maxLength", slot.maxLength.map .num),
    ("pattern", slot.pattern.map .str), ("format", slot.format.map .str),
    ("maxWords", slot.maxWords.map .num),
    ("provenanceRequired", slot.provenanceRequired.map .bool),
    ("yopsHint", slot.yopsHint.map YOpsHint.value)]

/-- The names of the fields of a slot. -/
def slotNames : List String :=
  ["type", "enum", "const", "default", "examples", "description", "contentGuidance",
    "gapQuestion", "contentKind", "minimum", "maximum", "minLength", "maxLength", "pattern",
    "format", "maxWords", "provenanceRequired", "yopsHint"]

/-- A slot as a value. -/
def SlotSchema.value (slot : SlotSchema) : JsValue := .obj (present slot.fields)

/-- The names of the fields of every slot are the same. -/
theorem SlotSchema.fieldNames_fields (slot : SlotSchema) :
    fieldNames slot.fields = slotNames.map js := rfl

/-- No field of a slot is there twice. -/
theorem SlotSchema.nodup_fields (slot : SlotSchema) : (fieldNames slot.fields).Nodup := by
  rw [slot.fieldNames_fields]
  decide

/-- What is checked of the fields of a slot that are set. -/
structure SlotSchema.Proper (regExpError : JsString → Option JsString) (slot : SlotSchema) :
    Prop where
  /-- There is an enumerated value. -/
  enum_ne : slot.enum ≠ some []
  /-- The constant is enumerated. -/
  const_mem : ¬ (slot.enum.any fun items => slot.const.any fun value =>
    !items.any (yValueEquals · value)) = true
  /-- The default is enumerated. -/
  default_mem : ¬ (slot.enum.any fun items => slot.default.any fun value =>
    !items.any (yValueEquals · value)) = true
  /-- The default is the constant. -/
  default_eq : ¬ (slot.const.any fun value => slot.default.any fun other =>
    !yValueEquals value other) = true
  /-- The least number is no greater than the greatest. -/
  number_le : ¬ (slot.minimum.any fun least => slot.maximum.any fun greatest =>
    greatest.lt least) = true
  /-- The least length is a count. -/
  minLength : ∀ context, asOptionalCount 0 (slot.minLength.map .num) context = .ok slot.minLength
  /-- The greatest length is a count. -/
  maxLength : ∀ context, asOptionalCount 0 (slot.maxLength.map .num) context = .ok slot.maxLength
  /-- The least length is no greater than the greatest. -/
  length_le : ¬ (slot.minLength.any fun least => slot.maxLength.any fun greatest =>
    greatest.lt least) = true
  /-- The pattern is a regular expression. -/
  pattern_valid : slot.pattern.bind regExpError = none
  /-- The greatest number of words is a positive count. -/
  maxWords : ∀ context, asOptionalCount 1 (slot.maxWords.map .num) context = .ok slot.maxWords
  /-- The hint can be read. -/
  yopsHint : ∀ context, normalizeYOpsHint (slot.yopsHint.map YOpsHint.value) context =
    .ok slot.yopsHint

/-- A slot that a mapping describes is proper. -/
theorem DescribesSlot.proper {regExpError : JsString → Option JsString} {raw : Record JsValue}
    {context : JsString} {slot : SlotSchema} (h : DescribesSlot regExpError raw context slot) :
    slot.Proper regExpError := by
  obtain ⟨_, -, hminLength⟩ := h.minLength
  obtain ⟨_, -, hmaxLength⟩ := h.maxLength
  obtain ⟨_, -, hmaxWords⟩ := h.maxWords
  obtain ⟨_, -, hhint⟩ := h.yopsHint
  exact ⟨h.enum_ne, h.const_mem, h.default_mem, h.default_eq, h.number_le,
    asOptionalCount_map hminLength, asOptionalCount_map hmaxLength, h.length_le, h.pattern_valid,
    asOptionalCount_map hmaxWords, normalizeYOpsHint_map hhint⟩

/-- A proper slot is what its value says. -/
theorem SlotSchema.Proper.describes {regExpError : JsString → Option JsString} {slot : SlotSchema}
    (h : slot.Proper regExpError) (context : JsString) :
    DescribesSlot regExpError (present slot.fields) context slot := by
  have hget := get_present slot.nodup_fields
  have hreads : ∀ {T : Type} (camel snake : String) (value : Option JsValue)
      {read : Option JsValue → Except JsString T} {t : T}, (camel, value) ∈ slot.fields →
        js snake ∉ slotNames.map js → read value = .ok t →
          ReadsField (present slot.fields) camel snake read t := fun camel snake value _ _ hmem hsnake =>
    readsField_present value slot.nodup_fields hmem hsnake
  exact
    { current := rejectDeprecatedFields_present (by rw [slot.fieldNames_fields]; decide)
      known := rejectUnknownFields_present (by rw [slot.fieldNames_fields]; decide)
      type := by
        rw [hget "type" _ (by simp [SlotSchema.fields]; rfl)]
        exact normalizeType_map _ _
      const := hget "const" _ (by simp [SlotSchema.fields])
      default := hget "default" _ (by simp [SlotSchema.fields])
      enum := by
        rw [hget "enum" (slot.enum.map .arr) (by simp [SlotSchema.fields])]
        exact asYValueArray_map _ _
      enum_ne := h.enum_ne
      const_mem := h.const_mem
      default_mem := h.default_mem
      default_eq := h.default_eq
      examples := by
        rw [hget "examples" (slot.examples.map .arr) (by simp [SlotSchema.fields])]
        exact asYValueArray_map _ _
      description := by
        rw [hget "description" (slot.description.map .str) (by simp [SlotSchema.fields])]
        exact asOptionalString_map _ _
      contentGuidance := hreads _ _ (slot.contentGuidance.map .str) (by simp [SlotSchema.fields])
        (by decide) (asOptionalString_map _ _)
      gapQuestion := hreads _ _ (slot.gapQuestion.map .str) (by simp [SlotSchema.fields])
        (by decide) (asOptionalString_map _ _)
      contentKind := hreads _ _ (slot.contentKind.map fun kind => .str kind.text)
        (by simp [SlotSchema.fields]) (by decide) (asOptionalContentKind_map _ _)
      minimum := by
        rw [hget "minimum" (slot.minimum.map .num) (by simp [SlotSchema.fields])]
        exact asOptionalNumber_map _ _
      maximum := by
        rw [hget "maximum" (slot.maximum.map .num) (by simp [SlotSchema.fields])]
        exact asOptionalNumber_map _ _
      number_le := h.number_le
      minLength := hreads _ _ (slot.minLength.map .num) (by simp [SlotSchema.fields])
        (by decide) (h.minLength _)
      maxLength := hreads _ _ (slot.maxLength.map .num) (by simp [SlotSchema.fields])
        (by decide) (h.maxLength _)
      length_le := h.length_le
      pattern := by
        rw [hget "pattern" (slot.pattern.map .str) (by simp [SlotSchema.fields])]
        exact asOptionalString_map _ _
      pattern_valid := h.pattern_valid
      format := by
        rw [hget "format" (slot.format.map .str) (by simp [SlotSchema.fields])]
        exact asOptionalString_map _ _
      maxWords := hreads _ _ (slot.maxWords.map .num) (by simp [SlotSchema.fields])
        (by decide) (h.maxWords _)
      provenanceRequired := hreads _ _ (slot.provenanceRequired.map .bool)
        (by simp [SlotSchema.fields]) (by decide) (asOptionalBoolean_map _ _)
      yopsHint := hreads _ _ (slot.yopsHint.map YOpsHint.value) (by simp [SlotSchema.fields])
        (by decide) (h.yopsHint _) }

/-- A mapping is read as a slot by its members. -/
theorem normalizeSlot_obj (regExpError : JsString → Option JsString) (raw : Record JsValue)
    (context : JsString) :
    normalizeSlot regExpError (.obj raw) context = normalizeSlotRecord regExpError raw context := by
  unfold normalizeSlot
  simp only [reduceCtorEq, if_false]
  rfl

/-- A slot is read again of its value exactly when it is proper. -/
theorem normalizeSlot_value_iff {regExpError : JsString → Option JsString} {slot : SlotSchema}
    (context : JsString) :
    normalizeSlot regExpError slot.value context = .ok slot ↔ slot.Proper regExpError := by
  rw [SlotSchema.value, normalizeSlot_obj, normalizeSlotRecord_eq_ok_iff]
  exact ⟨DescribesSlot.proper, fun h => h.describes context⟩

/-- A slot with no more than a type or an enumeration is proper if the enumeration has a
value. -/
theorem SlotSchema.proper_of_shorthand (regExpError : JsString → Option JsString)
    (type : Option SlotType) {enum : Option (List JsValue)} (h : enum ≠ some []) :
    SlotSchema.Proper regExpError { type := type, enum } where
  enum_ne := h
  const_mem := by cases enum <;> simp
  default_mem := by cases enum <;> simp
  default_eq := by simp
  number_le := by simp
  minLength := fun _ => rfl
  maxLength := fun _ => rfl
  length_le := by simp
  pattern_valid := rfl
  maxWords := fun _ => rfl
  yopsHint := fun _ => rfl

/-- A slot that was read is proper exactly when it was not declared by an array of no values. -/
theorem proper_iff_of_normalizeSlot {regExpError : JsString → Option JsString} {value : JsValue}
    {context : JsString} {slot : SlotSchema}
    (h : normalizeSlot regExpError value context = .ok slot) :
    slot.Proper regExpError ↔ value ≠ .arr [] := by
  rcases Classical.em (∃ items, value = .arr items) with ⟨items, rfl⟩ | hnot
  · obtain rfl := Except.ok.inj h
    constructor
    · rintro hproper heq
      obtain rfl := JsValue.arr.inj heq
      exact hproper.enum_ne rfl
    · intro hne
      refine SlotSchema.proper_of_shorthand regExpError none fun heq => hne ?_
      rw [Option.some.inj heq]
  · refine iff_of_true ?_ fun heq => hnot ⟨[], heq⟩
    unfold normalizeSlot at h
    split at h
    · exact absurd ⟨_, rfl⟩ hnot
    · split_ifs at h with hlist hscalar
      · obtain rfl := Except.ok.inj h
        exact SlotSchema.proper_of_shorthand regExpError (some .array) (by simp)
      · cases h
      · obtain ⟨raw, -, h⟩ := bind_eq_ok_iff.mp h
        exact ((normalizeSlotRecord_eq_ok_iff regExpError).mp h).proper

/-! ## Members -/

/-- Members that were read are read again of their values exactly when each of them is. -/
theorem normalizeMembers_value_iff {V W : Type} {raw : Record V} {keyContext context : JsString}
    {read : V → JsString → Except JsString W} {members : Record W}
    (h : normalizeMembers raw keyContext context read = .ok members) {V' : Type} (value : W → V')
    (keyContext' context' : JsString) (read' : V' → JsString → Except JsString W) :
    normalizeMembers (Record.mapValues value members) keyContext' context' read' = .ok members ↔
      ∀ e ∈ members, read' (value e.2) (context' ++ unit '.' :: e.1) = .ok e.2 := by
  rw [normalizeMembers_eq_ok_iff, Record.entries_mapValues,
    Record.entries_of_nodup (nodup_of_normalizeMembers h), Record.mapValues,
    List.forall₂_map_left_iff, List.forall₂_same]
  refine forall₂_congr fun e he => ?_
  simp [isKey_of_normalizeMembers h he]

/-! ## Nodes -/

/-- The children of a node as a value, given them as values. -/
def Children.value : Children JsValue → JsValue
  | .any => .str (js "any")
  | .declared members => .obj members

/-- The fields of a node, given its children as values. -/
def NodeHead.fields (head : NodeHead) (children : Option (Children JsValue)) :
    List (String × Option JsValue) :=
  [("required", head.required.map .bool), ("repeated", head.repeated.map .bool),
    ("description", head.description.map .str),
    ("contentGuidance", head.contentGuidance.map .str),
    ("contentKind", head.contentKind.map fun kind => .str kind.text),
    ("slots", head.slots.map fun slots => .obj (Record.mapValues SlotSchema.value slots)),
    ("requiredSlots", head.requiredSlots.map fun keys => .arr (keys.map .str)),
    ("children", children.map Children.value)]

/-- The names of the fields of a node. -/
def nodeNames : List String :=
  ["required", "repeated", "description", "contentGuidance", "contentKind", "slots",
    "requiredSlots", "children"]

/-- A node as a value. -/
def NodeSchema.value : NodeSchema → JsValue :=
  NodeSchema.fold fun head children => .obj (present (head.fields children))

/-- A node as a value, in terms of its children. -/
theorem NodeSchema.value_mk (head : NodeHead) (children : Option (Children NodeSchema)) :
    (NodeSchema.mk head children).value =
      .obj (present (head.fields (mapChildren NodeSchema.value children))) :=
  NodeSchema.fold_mk _ head children

/-- The slots that were read are read again exactly when they are proper. -/
theorem normalizeSlots_value_iff {regExpError : JsString → Option JsString}
    {value : Option JsValue} {context : JsString} {slots : Option (Record SlotSchema)}
    (h : normalizeSlots regExpError value context = .ok slots) (context' : JsString) :
    normalizeSlots regExpError
        (slots.map fun slots => .obj (Record.mapValues SlotSchema.value slots)) context' =
      .ok slots ↔
      ∀ raw, value = some (.obj raw) → ∀ key, Record.get raw key ≠ some (.arr []) := by
  unfold normalizeSlots at h
  cases value with
  | none =>
    obtain rfl := Except.ok.inj h
    exact iff_of_true rfl (by simp)
  | some value =>
    obtain ⟨raw, hraw, h⟩ := bind_eq_ok_iff.mp h
    obtain ⟨members, hmembers, h⟩ := bind_eq_ok_iff.mp h
    obtain rfl := Except.ok.inj h
    obtain rfl : value = .obj raw := by
      cases value with
      | obj members => rw [Except.ok.inj hraw]
      | _ => cases hraw
    have hread : normalizeSlots regExpError
        ((some members).map fun slots => .obj (Record.mapValues SlotSchema.value slots)) context' =
        .ok (some members) ↔ normalizeMembers (Record.mapValues SlotSchema.value members) context'
          context' (normalizeSlot regExpError) = .ok members := by
      simp only [normalizeSlots, Option.map_some, asRecord, bind_eq_ok_iff, Except.ok.injEq,
        exists_eq_left']
      constructor
      · rintro ⟨m, hm, heq⟩
        obtain rfl := Option.some.inj (Except.ok.inj heq)
        exact hm
      · intro hm
        exact ⟨members, hm, rfl⟩
    rw [hread, normalizeMembers_value_iff hmembers]
    simp only [normalizeSlot_value_iff, Option.some.injEq, JsValue.obj.injEq, forall_eq']
    constructor
    · intro hproper key hget
      obtain ⟨slot, hslot, hread⟩ := exists_get_of_normalizeMembers hmembers hget
      exact (proper_iff_of_normalizeSlot hread).mp
        (hproper (key, slot) (Record.mem_of_get hslot)) rfl
    · intro hnone e he
      have hget := Record.get_eq_some_of_mem (nodup_of_normalizeMembers hmembers) he
      obtain ⟨value, hvalue, hread⟩ := get_of_normalizeMembers hmembers hget
      exact (proper_iff_of_normalizeSlot hread).mpr fun heq => hnone e.1 (heq ▸ hvalue)

/-- A node is declared with a slot that is an array of no values, in itself or below it. -/
inductive DeclaresEmptyArray : JsValue → Prop
  | slot {raw slots : Record JsValue} {key : JsString} :
    Record.get raw (js "slots") = some (.obj slots) → Record.get slots key = some (.arr []) →
      DeclaresEmptyArray (.obj raw)
  | child {raw children : Record JsValue} {key : JsString} {child : JsValue} :
    Record.get raw (js "children") = some (.obj children) →
      Record.get children key = some child → DeclaresEmptyArray child →
        DeclaresEmptyArray (.obj raw)

/-- Where a node is declared without such a slot. -/
theorem not_declaresEmptyArray_iff {raw : Record JsValue} :
    ¬ DeclaresEmptyArray (.obj raw) ↔
      (∀ slots, Record.get raw (js "slots") = some (.obj slots) →
        ∀ key, Record.get slots key ≠ some (.arr [])) ∧
      ∀ children, Record.get raw (js "children") = some (.obj children) →
        ∀ key child, Record.get children key = some child → ¬ DeclaresEmptyArray child := by
  constructor
  · exact fun h => ⟨fun slots hslots key hkey => h (.slot hslots hkey),
      fun children hchildren key child hchild hbelow => h (.child hchildren hchild hbelow)⟩
  · rintro ⟨hslots, hchildren⟩ h
    cases h with
    | slot hget hkey => exact hslots _ hget _ hkey
    | child hget hchild hbelow => exact hchildren _ hget _ _ hchild hbelow

/-- The children that were read are read again exactly when each of them is. -/
theorem normalizeChildren_value_iff {regExpError : JsString → Option JsString}
    {value : Option JsValue} {context : JsString} {children : Option (Children NodeSchema)}
    (h : normalizeChildren (value.map (nodeReading regExpError)) context = .ok children)
    (hchild : ∀ e ∈ Children.nodes children, ∀ {value : JsValue} {context : JsString},
      normalizeNode regExpError value context = .ok e.2 →
        ∀ context', normalizeNode regExpError e.2.value context' = .ok e.2 ↔
          ¬ DeclaresEmptyArray value) (context' : JsString) :
    normalizeChildren (((mapChildren NodeSchema.value children).map Children.value).map
        (nodeReading regExpError)) context' = .ok children ↔
      ∀ raw, value = some (.obj raw) → ∀ key child, Record.get raw key = some child →
        ¬ DeclaresEmptyArray child := by
  rcases (normalizeChildren_eq_ok_iff regExpError).mp h with ⟨rfl, rfl⟩ | ⟨rfl, rfl⟩ |
    ⟨raw, nodes, rfl, rfl, hmembers⟩
  · exact iff_of_true rfl (by simp)
  · exact iff_of_true ((normalizeChildren_eq_ok_iff regExpError).mpr (.inr (.inl ⟨rfl, rfl⟩)))
      (by simp)
  · rw [normalizeChildren_eq_ok_iff]
    simp only [mapChildren, Option.map_some, Children.value, Option.some.injEq, reduceCtorEq,
      false_and, false_or, JsValue.obj.injEq, Children.declared.injEq, exists_and_left,
      exists_eq_left', forall_eq']
    rw [normalizeMembers_value_iff hmembers]
    constructor
    · intro hread key child hget
      obtain ⟨node, hnode, hchildRead⟩ := exists_get_of_normalizeMembers hmembers hget
      have hmem := Record.mem_of_get hnode
      exact (hchild (key, node) hmem hchildRead _).mp (hread (key, node) hmem)
    · intro hnone e he
      have hget := Record.get_eq_some_of_mem (nodup_of_normalizeMembers hmembers) he
      obtain ⟨child, hchildGet, hread⟩ := get_of_normalizeMembers hmembers hget
      exact (hchild e he hread _).mpr (hnone e.1 child hchildGet)

/-- No field of a node is there twice. -/
theorem NodeHead.nodup_fields (head : NodeHead) (children : Option (Children JsValue)) :
    (fieldNames (head.fields children)).Nodup := by
  change (nodeNames.map js).Nodup
  decide

/-- A node is what its value says exactly when its slots and its children are. -/
theorem describesNode_value_iff {regExpError : JsString → Option JsString} {raw : Record JsValue}
    {reading : Option NodeReading} {context : JsString} {node : NodeSchema}
    (h : DescribesNode regExpError raw reading context node)
    (children : Option (Children JsValue)) (context' : JsString) :
    DescribesNode regExpError (present (node.head.fields children))
        ((children.map Children.value).map (nodeReading regExpError)) context' node ↔
      normalizeSlots regExpError (node.head.slots.map fun slots =>
        .obj (Record.mapValues SlotSchema.value slots)) (context' ++ js ".slots") =
          .ok node.head.slots ∧
      normalizeChildren ((children.map Children.value).map (nodeReading regExpError))
        (context' ++ js ".children") = .ok node.children := by
  have hget := get_present (node.head.nodup_fields children)
  have hnames : fieldNames (node.head.fields children) = nodeNames.map js := rfl
  have hslots := hget "slots" (node.head.slots.map fun slots =>
    .obj (Record.mapValues SlotSchema.value slots)) (by simp [NodeHead.fields])
  have hreads : ∀ {T : Type} (camel snake : String) (value : Option JsValue)
      {read : Option JsValue → Except JsString T} {t : T}, (camel, value) ∈ node.head.fields children →
        js snake ∉ nodeNames.map js → read value = .ok t →
          ReadsField (present (node.head.fields children)) camel snake read t :=
    fun camel snake value _ _ hmem hsnake =>
      readsField_present value (node.head.nodup_fields children) hmem hsnake
  obtain ⟨_, -, hrequired⟩ := h.requiredSlots
  constructor
  · intro hdescribes
    exact ⟨hslots ▸ hdescribes.slots, hdescribes.children⟩
  · rintro ⟨hreadSlots, hchildren⟩
    exact
      { current := rejectDeprecatedFields_present (by rw [hnames]; decide)
        known := rejectUnknownFields_present (by rw [hnames]; decide)
        required := by
          rw [hget "required" (node.head.required.map .bool) (by simp [NodeHead.fields])]
          exact asOptionalBoolean_map _ _
        repeated := by
          rw [hget "repeated" (node.head.repeated.map .bool) (by simp [NodeHead.fields])]
          exact asOptionalBoolean_map _ _
        description := by
          rw [hget "description" (node.head.description.map .str) (by simp [NodeHead.fields])]
          exact asOptionalString_map _ _
        contentGuidance := hreads _ _ (node.head.contentGuidance.map .str)
          (by simp [NodeHead.fields]) (by decide) (asOptionalString_map _ _)
        contentKind := hreads _ _ (node.head.contentKind.map fun kind => .str kind.text)
          (by simp [NodeHead.fields]) (by decide) (asOptionalContentKind_map _ _)
        slots := by rw [hslots]; exact hreadSlots
        requiredSlots := hreads _ _ (node.head.requiredSlots.map fun keys => .arr (keys.map .str))
          (by simp [NodeHead.fields]) (by decide)
          (asKeyArray_map (isKey_of_asKeyArray hrequired) _)
        children := hchildren
        single := h.single
        declared := h.declared }

/-- A node that was read is read again of its value exactly when no slot in it or below it was
declared by an array of no values. -/
theorem normalizeNode_value_iff {regExpError : JsString → Option JsString} {node : NodeSchema} :
    ∀ {value : JsValue} {context : JsString}, normalizeNode regExpError value context = .ok node →
      ∀ context', normalizeNode regExpError node.value context' = .ok node ↔
        ¬ DeclaresEmptyArray value := by
  induction node using NodeSchema.induct with
  | mk head children ih =>
    intro value context h context'
    obtain ⟨raw, rfl, hdescribes⟩ := (normalizeNode_eq_ok_iff regExpError).mp h
    have hget : Record.get (present (head.fields (mapChildren NodeSchema.value children)))
        (js "children") = (mapChildren NodeSchema.value children).map Children.value :=
      get_present (head.nodup_fields _) _ _ (by simp [NodeHead.fields])
    rw [NodeSchema.value_mk, normalizeNode_eq_ok_iff]
    simp only [JsValue.obj.injEq, exists_eq_left']
    rw [hget, not_declaresEmptyArray_iff]
    refine (describesNode_value_iff hdescribes (mapChildren NodeSchema.value children)
      context').trans ?_
    exact and_congr (normalizeSlots_value_iff hdescribes.slots _)
      (normalizeChildren_value_iff hdescribes.children ih _)

end T3x.Yschema
