import T3x.Yschema.Normalized

/-!
# What a mapping says of a slot and of a node

Reading a slot or a node of a mapping gives a result exactly when every member says
what the result holds, and the result keeps the rules that its members keep among
themselves. The members are read apart from each other, so this is a list of facts.
-/

namespace T3x.Yschema

open Js

variable (regExpError : JsString → Option JsString)

/-- A member that is read under one of its two names. -/
def ReadsField {T : Type} (raw : Record JsValue) (camel snake : String)
    (read : Option JsValue → Except JsString T) (value : T) : Prop :=
  ∃ v, getField raw camel snake = .ok v ∧ read v = .ok value

/-! ## Hints -/

/-- The operation that a hint prefers. -/
def asPreferredOp (value : Option JsValue) (context : JsString) :
    Except JsString (Option JsString) :=
  match value with
  | none => .ok none
  | some op =>
    if Shape.word ["define", "set", "populate", "append"] op then .ok (some op.text)
    else invalidSchema (context ++ js ".preferredOp must be define, set, populate, or append")

/-- The mapping is a description of the hint. -/
structure DescribesHint (raw : Record JsValue) (context : JsString) (hint : YOpsHint) : Prop where
  /-- Its members are those of a hint. -/
  known : rejectUnknownFields raw context yopsHintFields = .ok ()
  /-- It gives the operation. -/
  preferredOp : ReadsField raw "preferredOp" "preferred_op" (asPreferredOp · context)
    hint.preferredOp
  /-- It gives the path. -/
  path : asOptionalString (Record.get raw (js "path")) (context ++ js ".path") = .ok hint.path
  /-- The path is machine-safe. -/
  path_valid : ∀ path, hint.path = some path → isPath path = true
  /-- It gives the slot. -/
  slot : asOptionalString (Record.get raw (js "slot")) (context ++ js ".slot") = .ok hint.slot
  /-- The slot is machine-safe. -/
  slot_valid : ∀ slot, hint.slot = some slot → isKey slot = true

/-- A check is made of what is there. -/
theorem forM_eq_ok_iff {T E : Type} {value : Option T} {check : T → Except E Unit} {u : Unit} :
    value.forM check = .ok u ↔ ∀ t, value = some t → check t = .ok () := by
  cases value with
  | none => exact ⟨fun _ t ht => absurd ht (by simp), fun _ => rfl⟩
  | some t => simp [Option.forM]

/-- A hint is read of a mapping exactly when the mapping describes it. -/
theorem normalizeYOpsHint_eq_ok_iff {value : JsValue} {context : JsString}
    {hint : Option YOpsHint} :
    normalizeYOpsHint (some value) context = .ok hint ↔
      ∃ raw described, value = .obj raw ∧ hint = some described ∧
        DescribesHint raw context described := by
  have hrecord : ∀ {raw : Record JsValue}, asRecord value context = .ok raw ↔ value = .obj raw := by
    intro raw
    match value with
    | .obj members => simp [asRecord]
    | .null | .bool _ | .num _ | .str _ | .arr _ => simp [asRecord, invalidSchema]
  have hrest : ∀ (raw : Record JsValue) (preferredOp : Option JsString), (do
      let path ← asOptionalString (Record.get raw (js "path")) (context ++ js ".path")
      path.forM fun path => assertPath path (context ++ js ".path")
      let slot ← asOptionalString (Record.get raw (js "slot")) (context ++ js ".slot")
      slot.forM fun slot => assertKey slot (context ++ js ".slot")
      return some { preferredOp, path, slot } : Except JsString (Option YOpsHint)) = .ok hint ↔
      ∃ path slot, hint = some { preferredOp, path, slot } ∧
        asOptionalString (Record.get raw (js "path")) (context ++ js ".path") = .ok path ∧
        (∀ p, path = some p → isPath p = true) ∧
        asOptionalString (Record.get raw (js "slot")) (context ++ js ".slot") = .ok slot ∧
        ∀ s, slot = some s → isKey s = true := by
    intro raw preferredOp
    simp only [bind_eq_ok_iff, forM_eq_ok_iff, assertPath_eq_ok_iff, assertKey_eq_ok_iff]
    constructor
    · rintro ⟨path, hpath, -, hvalid, slot, hslot, -, hkey, h⟩
      exact ⟨path, slot, (Except.ok.inj h).symm, hpath, hvalid, hslot, hkey⟩
    · rintro ⟨path, slot, rfl, hpath, hvalid, hslot, hkey⟩
      exact ⟨path, hpath, (), hvalid, slot, hslot, (), hkey, rfl⟩
  unfold normalizeYOpsHint
  constructor
  · intro h
    obtain ⟨raw, hraw, h⟩ := bind_eq_ok_iff.mp h
    obtain ⟨⟨⟩, hknown, h⟩ := bind_eq_ok_iff.mp h
    obtain ⟨rawOp, hrawOp, h⟩ := bind_eq_ok_iff.mp h
    have hop : ∃ preferredOp, asPreferredOp rawOp context = .ok preferredOp ∧
        ∃ path slot, hint = some { preferredOp, path, slot } ∧
          asOptionalString (Record.get raw (js "path")) (context ++ js ".path") = .ok path ∧
          (∀ p, path = some p → isPath p = true) ∧
          asOptionalString (Record.get raw (js "slot")) (context ++ js ".slot") = .ok slot ∧
          ∀ s, slot = some s → isKey s = true := by
      cases rawOp with
      | none => exact ⟨none, rfl, (hrest raw none).mp h⟩
      | some op =>
        simp only at h
        split_ifs at h with hword
        · exact ⟨some op.text, if_pos hword, (hrest raw _).mp h⟩
        · cases h
    obtain ⟨preferredOp, hop, path, slot, rfl, hpath, hvalid, hslot, hkey⟩ := hop
    exact ⟨raw, _, hrecord.mp hraw, rfl, ⟨hknown, ⟨rawOp, hrawOp, hop⟩, hpath, hvalid, hslot, hkey⟩⟩
  · rintro ⟨raw, described, rfl, rfl, h⟩
    obtain ⟨rawOp, hrawOp, hop⟩ := h.preferredOp
    refine bind_eq_ok_iff.mpr ⟨raw, rfl, bind_eq_ok_iff.mpr ⟨(), h.known, ?_⟩⟩
    refine bind_eq_ok_iff.mpr ⟨rawOp, hrawOp, ?_⟩
    have hlast := (hrest raw described.preferredOp).mpr
      ⟨_, _, rfl, h.path, h.path_valid, h.slot, h.slot_valid⟩
    cases rawOp with
    | none =>
      rw [← Except.ok.inj hop] at hlast
      exact hlast
    | some op =>
      simp only [asPreferredOp] at hop ⊢
      split_ifs at hop ⊢ with hword
      · rw [← Except.ok.inj hop] at hlast
        exact hlast
      · cases hop

/-! ## Slots -/

/-- The mapping is a description of the slot. -/
structure DescribesSlot (raw : Record JsValue) (context : JsString) (slot : SlotSchema) : Prop where
  /-- None of its members is deprecated. -/
  current : rejectDeprecatedFields raw context = .ok ()
  /-- Its members are those of a slot. -/
  known : rejectUnknownFields raw context slotFields = .ok ()
  /-- It gives the type. -/
  type : normalizeType (Record.get raw (js "type")) context = .ok slot.type
  /-- It gives the constant. -/
  const : Record.get raw (js "const") = slot.const
  /-- It gives the default. -/
  default : Record.get raw (js "default") = slot.default
  /-- It gives the enumerated values. -/
  enum : asYValueArray (Record.get raw (js "enum")) (context ++ js ".enum") = .ok slot.enum
  /-- There is an enumerated value. -/
  enum_ne : slot.enum ≠ some []
  /-- The constant is enumerated. -/
  const_mem : ¬ (slot.enum.any fun items => slot.const.any fun value =>
    !items.any (yValueEquals · value)) = true
  /-- The default is enumerated. -/
  default_mem : ¬ (slot.enum.any fun items => slot.default.any fun value =>
    !items.any (yValueEquals · value)) = true
  /-- The default is the constant. -/
  default_eq : ¬ (slot.const.any fun value => slot.default.any fun other =>
    !yValueEquals value other) = true
  /-- It gives the examples. -/
  examples : asYValueArray (Record.get raw (js "examples")) (context ++ js ".examples") =
    .ok slot.examples
  /-- It gives the description. -/
  description : asOptionalString (Record.get raw (js "description")) (context ++ js ".description") =
    .ok slot.description
  /-- It says what to write. -/
  contentGuidance : ReadsField raw "contentGuidance" "content_guidance"
    (asOptionalString · (context ++ js ".contentGuidance")) slot.contentGuidance
  /-- It gives the question. -/
  gapQuestion : ReadsField raw "gapQuestion" "gap_question"
    (asOptionalString · (context ++ js ".gapQuestion")) slot.gapQuestion
  /-- It gives the kind of content. -/
  contentKind : ReadsField raw "contentKind" "content_kind"
    (asOptionalContentKind · (context ++ js ".contentKind")) slot.contentKind
  /-- It gives the least number. -/
  minimum : asOptionalNumber (Record.get raw (js "minimum")) (context ++ js ".minimum") =
    .ok slot.minimum
  /-- It gives the greatest number. -/
  maximum : asOptionalNumber (Record.get raw (js "maximum")) (context ++ js ".maximum") =
    .ok slot.maximum
  /-- The least number is no greater than the greatest. -/
  number_le : ¬ (slot.minimum.any fun least => slot.maximum.any fun greatest =>
    greatest.lt least) = true
  /-- It gives the least length. -/
  minLength : ReadsField raw "minLength" "min_length"
    (asOptionalCount 0 · (context ++ js ".minLength")) slot.minLength
  /-- It gives the greatest length. -/
  maxLength : ReadsField raw "maxLength" "max_length"
    (asOptionalCount 0 · (context ++ js ".maxLength")) slot.maxLength
  /-- The least length is no greater than the greatest. -/
  length_le : ¬ (slot.minLength.any fun least => slot.maxLength.any fun greatest =>
    greatest.lt least) = true
  /-- It gives the pattern. -/
  pattern : asOptionalString (Record.get raw (js "pattern")) (context ++ js ".pattern") =
    .ok slot.pattern
  /-- The pattern is a regular expression. -/
  pattern_valid : slot.pattern.bind regExpError = none
  /-- It gives the format. -/
  format : asOptionalString (Record.get raw (js "format")) (context ++ js ".format") =
    .ok slot.format
  /-- It gives the greatest number of words. -/
  maxWords : ReadsField raw "maxWords" "max_words"
    (asOptionalCount 1 · (context ++ js ".maxWords")) slot.maxWords
  /-- It says whether a value needs evidence. -/
  provenanceRequired : ReadsField raw "provenanceRequired" "provenance_required"
    (asOptionalBoolean · (context ++ js ".provenanceRequired")) slot.provenanceRequired
  /-- It says how to write the slot. -/
  yopsHint : ReadsField raw "yopsHint" "yops_hint"
    (normalizeYOpsHint · (context ++ js ".yopsHint")) slot.yopsHint

/-- A slot is read of a mapping exactly when the mapping describes it. -/
theorem normalizeSlotRecord_eq_ok_iff {raw : Record JsValue} {context : JsString}
    {slot : SlotSchema} :
    normalizeSlotRecord regExpError raw context = .ok slot ↔
      DescribesSlot regExpError raw context slot := by
  unfold normalizeSlotRecord
  constructor
  · intro h
    obtain ⟨⟨⟩, hcurrent, h⟩ := bind_eq_ok_iff.mp h
    obtain ⟨⟨⟩, hknown, h⟩ := bind_eq_ok_iff.mp h
    obtain ⟨type, htype, h⟩ := bind_eq_ok_iff.mp h
    obtain ⟨rawMinLength, hrawMinLength, h⟩ := bind_eq_ok_iff.mp h
    obtain ⟨rawMaxLength, hrawMaxLength, h⟩ := bind_eq_ok_iff.mp h
    obtain ⟨rawMaxWords, hrawMaxWords, h⟩ := bind_eq_ok_iff.mp h
    obtain ⟨rawProvenance, hrawProvenance, h⟩ := bind_eq_ok_iff.mp h
    obtain ⟨rawKind, hrawKind, h⟩ := bind_eq_ok_iff.mp h
    obtain ⟨rawGuidance, hrawGuidance, h⟩ := bind_eq_ok_iff.mp h
    obtain ⟨rawQuestion, hrawQuestion, h⟩ := bind_eq_ok_iff.mp h
    obtain ⟨rawHint, hrawHint, h⟩ := bind_eq_ok_iff.mp h
    obtain ⟨enum, henum, h⟩ := bind_eq_ok_iff.mp h
    obtain ⟨hne, h⟩ := invalidSchema_eq_ok_iff.mp h
    obtain ⟨hconst, h⟩ := invalidSchema_eq_ok_iff.mp h
    obtain ⟨hdefault, h⟩ := invalidSchema_eq_ok_iff.mp h
    obtain ⟨heq, h⟩ := invalidSchema_eq_ok_iff.mp h
    obtain ⟨examples, hexamples, h⟩ := bind_eq_ok_iff.mp h
    obtain ⟨description, hdescription, h⟩ := bind_eq_ok_iff.mp h
    obtain ⟨guidance, hguidance, h⟩ := bind_eq_ok_iff.mp h
    obtain ⟨question, hquestion, h⟩ := bind_eq_ok_iff.mp h
    obtain ⟨kind, hkind, h⟩ := bind_eq_ok_iff.mp h
    obtain ⟨minimum, hminimum, h⟩ := bind_eq_ok_iff.mp h
    obtain ⟨maximum, hmaximum, h⟩ := bind_eq_ok_iff.mp h
    obtain ⟨hnumber, h⟩ := invalidSchema_eq_ok_iff.mp h
    obtain ⟨minLength, hminLength, h⟩ := bind_eq_ok_iff.mp h
    obtain ⟨maxLength, hmaxLength, h⟩ := bind_eq_ok_iff.mp h
    obtain ⟨hlength, h⟩ := invalidSchema_eq_ok_iff.mp h
    obtain ⟨pattern, hpattern, h⟩ := bind_eq_ok_iff.mp h
    have hvalid : pattern.bind regExpError = none := by
      split at h
      · cases h
      · assumption
    simp only [hvalid] at h
    obtain ⟨format, hformat, h⟩ := bind_eq_ok_iff.mp h
    obtain ⟨maxWords, hmaxWords, h⟩ := bind_eq_ok_iff.mp h
    obtain ⟨provenance, hprovenance, h⟩ := bind_eq_ok_iff.mp h
    obtain ⟨hint, hhint, h⟩ := bind_eq_ok_iff.mp h
    obtain rfl := Except.ok.inj h
    exact
      { current := hcurrent, known := hknown, type := htype, const := rfl, default := rfl
        enum := henum, enum_ne := hne, const_mem := hconst, default_mem := hdefault
        default_eq := heq, examples := hexamples, description := hdescription
        contentGuidance := ⟨_, hrawGuidance, hguidance⟩
        gapQuestion := ⟨_, hrawQuestion, hquestion⟩
        contentKind := ⟨_, hrawKind, hkind⟩, minimum := hminimum, maximum := hmaximum
        number_le := hnumber, minLength := ⟨_, hrawMinLength, hminLength⟩
        maxLength := ⟨_, hrawMaxLength, hmaxLength⟩, length_le := hlength, pattern := hpattern
        pattern_valid := hvalid, format := hformat, maxWords := ⟨_, hrawMaxWords, hmaxWords⟩
        provenanceRequired := ⟨_, hrawProvenance, hprovenance⟩
        yopsHint := ⟨_, hrawHint, hhint⟩ }
  · intro h
    obtain ⟨rawMinLength, hrawMinLength, hminLength⟩ := h.minLength
    obtain ⟨rawMaxLength, hrawMaxLength, hmaxLength⟩ := h.maxLength
    obtain ⟨rawMaxWords, hrawMaxWords, hmaxWords⟩ := h.maxWords
    obtain ⟨rawProvenance, hrawProvenance, hprovenance⟩ := h.provenanceRequired
    obtain ⟨rawKind, hrawKind, hkind⟩ := h.contentKind
    obtain ⟨rawGuidance, hrawGuidance, hguidance⟩ := h.contentGuidance
    obtain ⟨rawQuestion, hrawQuestion, hquestion⟩ := h.gapQuestion
    obtain ⟨rawHint, hrawHint, hhint⟩ := h.yopsHint
    refine bind_eq_ok_iff.mpr ⟨(), h.current, bind_eq_ok_iff.mpr ⟨(), h.known, ?_⟩⟩
    refine bind_eq_ok_iff.mpr ⟨_, h.type, bind_eq_ok_iff.mpr ⟨_, hrawMinLength, ?_⟩⟩
    refine bind_eq_ok_iff.mpr ⟨_, hrawMaxLength, bind_eq_ok_iff.mpr ⟨_, hrawMaxWords, ?_⟩⟩
    refine bind_eq_ok_iff.mpr ⟨_, hrawProvenance, bind_eq_ok_iff.mpr ⟨_, hrawKind, ?_⟩⟩
    refine bind_eq_ok_iff.mpr ⟨_, hrawGuidance, bind_eq_ok_iff.mpr ⟨_, hrawQuestion, ?_⟩⟩
    refine bind_eq_ok_iff.mpr ⟨_, hrawHint, bind_eq_ok_iff.mpr ⟨_, h.enum, ?_⟩⟩
    rw [h.const, h.default]
    refine invalidSchema_eq_ok_iff.mpr ⟨h.enum_ne, invalidSchema_eq_ok_iff.mpr ⟨h.const_mem, ?_⟩⟩
    refine invalidSchema_eq_ok_iff.mpr ⟨h.default_mem, ?_⟩
    refine invalidSchema_eq_ok_iff.mpr ⟨h.default_eq, ?_⟩
    refine bind_eq_ok_iff.mpr ⟨_, h.examples, bind_eq_ok_iff.mpr ⟨_, h.description, ?_⟩⟩
    refine bind_eq_ok_iff.mpr ⟨_, hguidance, bind_eq_ok_iff.mpr ⟨_, hquestion, ?_⟩⟩
    refine bind_eq_ok_iff.mpr ⟨_, hkind, bind_eq_ok_iff.mpr ⟨_, h.minimum, ?_⟩⟩
    refine bind_eq_ok_iff.mpr ⟨_, h.maximum, invalidSchema_eq_ok_iff.mpr ⟨h.number_le, ?_⟩⟩
    refine bind_eq_ok_iff.mpr ⟨_, hminLength, bind_eq_ok_iff.mpr ⟨_, hmaxLength, ?_⟩⟩
    refine invalidSchema_eq_ok_iff.mpr ⟨h.length_le, bind_eq_ok_iff.mpr ⟨_, h.pattern, ?_⟩⟩
    simp only [h.pattern_valid]
    refine bind_eq_ok_iff.mpr ⟨_, h.format, ?_⟩
    refine bind_eq_ok_iff.mpr ⟨_, hmaxWords, bind_eq_ok_iff.mpr ⟨_, hprovenance, ?_⟩⟩
    exact bind_eq_ok_iff.mpr ⟨_, hhint, rfl⟩

/-! ## Nodes -/

/-- The mapping is a description of the node, given what its member `children` reads as. -/
structure DescribesNode (raw : Record JsValue) (reading : Option NodeReading) (context : JsString)
    (node : NodeSchema) : Prop where
  /-- None of its members is deprecated. -/
  current : rejectDeprecatedFields raw context = .ok ()
  /-- Its members are those of a node. -/
  known : rejectUnknownFields raw context nodeFields = .ok ()
  /-- It says whether the node has to be there. -/
  required : asOptionalBoolean (Record.get raw (js "required")) (context ++ js ".required") =
    .ok node.head.required
  /-- It says whether the node is repeated. -/
  repeated : asOptionalBoolean (Record.get raw (js "repeated")) (context ++ js ".repeated") =
    .ok node.head.repeated
  /-- It gives the description. -/
  description : asOptionalString (Record.get raw (js "description")) (context ++ js ".description") =
    .ok node.head.description
  /-- It says what to write. -/
  contentGuidance : ReadsField raw "contentGuidance" "content_guidance"
    (asOptionalString · (context ++ js ".contentGuidance")) node.head.contentGuidance
  /-- It gives the kind of content. -/
  contentKind : ReadsField raw "contentKind" "content_kind"
    (asOptionalContentKind · (context ++ js ".contentKind")) node.head.contentKind
  /-- It declares the slots. -/
  slots : normalizeSlots regExpError (Record.get raw (js "slots")) (context ++ js ".slots") =
    .ok node.head.slots
  /-- It says which slots have to be there. -/
  requiredSlots : ReadsField raw "requiredSlots" "required_slots"
    (asKeyArray · (context ++ js ".requiredSlots")) node.head.requiredSlots
  /-- It declares the children. -/
  children : normalizeChildren reading (context ++ js ".children") = .ok node.children
  /-- A repeated node has no children. -/
  single : ¬ (node.head.repeated = some true ∧ node.children.isSome = true)
  /-- The slots that have to be there are declared. -/
  declared : ∀ key ∈ node.head.requiredSlots.getD [],
    Record.has (node.head.slots.getD []) key = true

/-- A node is read of a mapping exactly when the mapping describes it. -/
theorem normalizeNodeRecord_eq_ok_iff {raw : Record JsValue} {reading : Option NodeReading}
    {context : JsString} {node : NodeSchema} :
    normalizeNodeRecord regExpError raw reading context = .ok node ↔
      DescribesNode regExpError raw reading context node := by
  have hdeclared : ∀ (slots : Option (Record SlotSchema)) (required : Option (List JsString)),
      ((required.getD []).find? fun key => !Record.has (slots.getD []) key) = none ↔
        ∀ key ∈ required.getD [], Record.has (slots.getD []) key = true := by
    intro slots required
    rw [List.find?_eq_none]
    simp
  unfold normalizeNodeRecord
  constructor
  · intro h
    obtain ⟨⟨⟩, hcurrent, h⟩ := bind_eq_ok_iff.mp h
    obtain ⟨⟨⟩, hknown, h⟩ := bind_eq_ok_iff.mp h
    obtain ⟨required, hrequired, h⟩ := bind_eq_ok_iff.mp h
    obtain ⟨repeated, hrepeated, h⟩ := bind_eq_ok_iff.mp h
    obtain ⟨description, hdescription, h⟩ := bind_eq_ok_iff.mp h
    obtain ⟨rawGuidance, hrawGuidance, h⟩ := bind_eq_ok_iff.mp h
    obtain ⟨guidance, hguidance, h⟩ := bind_eq_ok_iff.mp h
    obtain ⟨rawKind, hrawKind, h⟩ := bind_eq_ok_iff.mp h
    obtain ⟨kind, hkind, h⟩ := bind_eq_ok_iff.mp h
    obtain ⟨slots, hslots, h⟩ := bind_eq_ok_iff.mp h
    obtain ⟨rawRequired, hrawRequired, h⟩ := bind_eq_ok_iff.mp h
    obtain ⟨requiredSlots, hrequiredSlots, h⟩ := bind_eq_ok_iff.mp h
    obtain ⟨children, hchildren, h⟩ := bind_eq_ok_iff.mp h
    obtain ⟨hsingle, h⟩ := invalidSchema_eq_ok_iff.mp h
    have hnone : ((requiredSlots.getD []).find? fun key => !Record.has (slots.getD []) key) =
        none := by
      split at h
      · cases h
      · assumption
    simp only [hnone] at h
    obtain rfl := Except.ok.inj h
    exact
      { current := hcurrent, known := hknown, required := hrequired, repeated := hrepeated
        description := hdescription, contentGuidance := ⟨_, hrawGuidance, hguidance⟩
        contentKind := ⟨_, hrawKind, hkind⟩, slots := hslots
        requiredSlots := ⟨_, hrawRequired, hrequiredSlots⟩, children := hchildren
        single := hsingle, declared := (hdeclared slots requiredSlots).mp hnone }
  · intro h
    obtain ⟨rawGuidance, hrawGuidance, hguidance⟩ := h.contentGuidance
    obtain ⟨rawKind, hrawKind, hkind⟩ := h.contentKind
    obtain ⟨rawRequired, hrawRequired, hrequiredSlots⟩ := h.requiredSlots
    refine bind_eq_ok_iff.mpr ⟨(), h.current, bind_eq_ok_iff.mpr ⟨(), h.known, ?_⟩⟩
    refine bind_eq_ok_iff.mpr ⟨_, h.required, bind_eq_ok_iff.mpr ⟨_, h.repeated, ?_⟩⟩
    refine bind_eq_ok_iff.mpr ⟨_, h.description, bind_eq_ok_iff.mpr ⟨_, hrawGuidance, ?_⟩⟩
    refine bind_eq_ok_iff.mpr ⟨_, hguidance, bind_eq_ok_iff.mpr ⟨_, hrawKind, ?_⟩⟩
    refine bind_eq_ok_iff.mpr ⟨_, hkind, bind_eq_ok_iff.mpr ⟨_, h.slots, ?_⟩⟩
    refine bind_eq_ok_iff.mpr ⟨_, hrawRequired, bind_eq_ok_iff.mpr ⟨_, hrequiredSlots, ?_⟩⟩
    refine bind_eq_ok_iff.mpr ⟨_, h.children, invalidSchema_eq_ok_iff.mpr ⟨h.single, ?_⟩⟩
    simp only [(hdeclared _ _).mpr h.declared]
    obtain ⟨head, children⟩ := node
    rfl

/-- Members that are read already are read as the values are. -/
theorem normalizeMembers_mapValues {V W : Type} (raw : Record V) (keyContext context : JsString)
    (read : V → JsString → Except JsString W) :
    normalizeMembers (Record.mapValues read raw) keyContext context (fun r => r) =
      normalizeMembers raw keyContext context read := by
  unfold normalizeMembers
  rw [Record.entries_mapValues, Record.mapValues, List.mapM_map]
  rfl

/-- What reading a mapping gives for each of its members. -/
theorem nodeReading_obj_members (raw : Record JsValue) :
    (nodeReading regExpError (.obj raw)).members =
      some (Record.mapValues (normalizeNode regExpError) raw) := by
  unfold nodeReading
  rw [JsValue.fold_obj]
  change some (Record.mapValues NodeReading.node (Record.mapValues (nodeReading regExpError) raw)) = _
  rw [Record.mapValues, Record.mapValues, List.map_map]
  rfl

/-- The children are any, or they are read of the members of a mapping. -/
theorem normalizeChildren_eq_ok_iff {value : Option JsValue} {context : JsString}
    {children : Option (Children NodeSchema)} :
    normalizeChildren (value.map (nodeReading regExpError)) context = .ok children ↔
      (value = none ∧ children = none) ∨ (value = some (.str (js "any")) ∧ children = some .any) ∨
        ∃ raw nodes, value = some (.obj raw) ∧ children = some (.declared nodes) ∧
          normalizeMembers raw context context (normalizeNode regExpError) = .ok nodes := by
  match value with
  | none => simp [normalizeChildren, eq_comm]
  | some (.obj raw) =>
    simp only [Option.map_some, normalizeChildren, nodeReading_value, reduceCtorEq, if_false,
      nodeReading_obj_members, normalizeMembers_mapValues, bind_eq_ok_iff, Option.some.injEq,
      JsValue.obj.injEq, exists_eq_left', false_and, false_or, exists_and_left]
    constructor
    · rintro ⟨nodes, hnodes, h⟩
      exact ⟨nodes, (Except.ok.inj h).symm, hnodes⟩
    · rintro ⟨nodes, rfl, hnodes⟩
      exact ⟨nodes, hnodes, rfl⟩
  | some (.str s) =>
    by_cases hany : s = js "any"
    · simp [normalizeChildren, nodeReading_value, hany, eq_comm]
    · simp [normalizeChildren, hany, nodeReading, JsValue.fold, invalidSchema]
  | some .null | some (.bool _) | some (.num _) | some (.arr _) =>
    simp [normalizeChildren, nodeReading, JsValue.fold, invalidSchema]

/-- A node is read of mappings only. -/
theorem normalizeNode_eq_ok_iff {value : JsValue} {context : JsString} {node : NodeSchema} :
    normalizeNode regExpError value context = .ok node ↔
      ∃ raw, value = .obj raw ∧ DescribesNode regExpError raw
        ((Record.get raw (js "children")).map (nodeReading regExpError)) context node := by
  match value with
  | .obj raw =>
    rw [normalizeNode_obj, normalizeNodeRecord_eq_ok_iff]
    simp
  | .null | .bool _ | .num _ | .str _ | .arr _ =>
    simp [normalizeNode, nodeReading, JsValue.fold, invalidSchema]

end T3x.Yschema
