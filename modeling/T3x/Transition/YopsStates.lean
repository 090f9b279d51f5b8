import T3x.Transition.YopsDriver

/-!
# States of mapping documents

A copy through the canonical text is the same value, so what the adapter makes
of a value has the descriptor that the value would have. A State of the adapter
is known by its value.
-/

namespace T3x.Transition

open Js Yops

/-! ## Copies -/

/-- A copy through the canonical text equals its original up to the order of members and the sign
of zero. -/
theorem canonicalClone_same (value : JsValue) : JsValue.Same (canonicalClone value) value := by
  induction value using JsValue.induct with
  | null => rfl
  | bool b => rfl
  | num n => simp [JsValue.Same, canonicalClone, JsValue.fold]
  | str s => rfl
  | arr items ih =>
    unfold canonicalClone JsValue.Same
    rw [JsValue.fold_arr, JsValue.denote_arr, JsValue.denote_arr, List.map_map]
    exact congrArg Doc.arr (List.map_congr_left ih)
  | obj members ih =>
    unfold canonicalClone JsValue.Same
    rw [JsValue.fold_obj, JsValue.denote_obj_eq_iff]
    intro key
    have hperm := Record.sorted_perm compareCodeUnits (Record.mapValues canonicalClone members)
    have hnodup := (hperm.map Prod.fst).nodup_iff.mpr (Record.keys_nodup _)
    change (Record.get (Record.fromEntries (Record.sorted compareCodeUnits
      (Record.mapValues canonicalClone members))) key).map _ = _
    rw [Record.get_fromEntries hnodup, ← Record.get_perm hnodup hperm, Record.get_entries,
      Record.get_mapValues]
    cases hv : Record.get members key with
    | none => rfl
    | some v => exact congrArg some (ih _ (Record.mem_of_get hv))

/-- A value without lone surrogates is normalized to its copy. -/
theorem normalizeProtocolValue_of_isUnicode {value : JsValue} (h : value.isUnicode = true) :
    normalizeProtocolValue value = .ok (canonicalClone value) := by
  obtain ⟨text, htext⟩ := exists_canonicalJson_iff.mpr h
  rw [normalizeProtocolValue, canonicalizeProtocolValue, htext]
  rfl

/-- The copy of an array is the array of the copies. -/
theorem canonicalClone_arr (items : List JsValue) :
    canonicalClone (.arr items) = .arr (items.map canonicalClone) := by
  unfold canonicalClone
  rw [JsValue.fold_arr]

/-- The copies of values are the same values. -/
theorem forall₂_canonicalClone (items : List JsValue) :
    List.Forall₂ JsValue.Same (items.map canonicalClone) items :=
  List.forall₂_map_left_iff.mpr (List.forall₂_same.mpr fun value _ => canonicalClone_same value)

/-! ## States -/

/-- A State is in the domain of the protocol, and so is its value. -/
theorem isUnicode_of_parseState {state : JsValue} (h : parseState state = .ok state) :
    state.isUnicode = true ∧ (part state "value").isUnicode = true := by
  obtain ⟨_, hdomain, h⟩ := bind_eq_ok_iff.mp h
  obtain ⟨record, hrecord, h⟩ := bind_eq_ok_iff.mp h
  obtain ⟨_, -, h⟩ := bind_eq_ok_iff.mp h
  obtain ⟨_, -, h⟩ := bind_eq_ok_iff.mp h
  obtain ⟨_, hvalue, -⟩ := bind_eq_ok_iff.mp h
  obtain ⟨rfl, -⟩ := closedRecord_eq_ok_iff.mp hrecord
  exact ⟨isUnicode_of_assertProtocolDomain hdomain, isUnicode_of_assertProtocolDomain hvalue⟩

/-- A State is a protocol object of its schema. -/
theorem object_of_parseState {state : JsValue} (h : parseState state = .ok state) :
    parseProtocolObject state = .ok state ∧
      kindForSchema state = some (.state, stateSchema) := by
  have hparse := h
  obtain ⟨_, hdomain, h⟩ := bind_eq_ok_iff.mp h
  obtain ⟨record, hrecord, h⟩ := bind_eq_ok_iff.mp h
  obtain ⟨_, hschema, -⟩ := bind_eq_ok_iff.mp h
  obtain ⟨rfl, -⟩ := closedRecord_eq_ok_iff.mp hrecord
  rw [literal_eq_ok_iff] at hschema
  refine ⟨?_, if_pos hschema⟩
  have hclosed : closedRecord (.obj record) (js "$") [js "schema"] protocolFields = .ok record :=
    closedRecord_mono hrecord (by decide) (by decide)
  refine bind_eq_ok_iff.mpr ⟨(), hdomain, bind_eq_ok_iff.mpr ⟨record, hclosed, ?_⟩⟩
  rw [if_pos hschema]
  exact hparse

section

variable {sha256 : List UInt8 → JsString}

/-- A State has a descriptor and canonical bytes. -/
theorem exists_describe (sha256 : List UInt8 → JsString) {state : JsValue}
    (h : parseState state = .ok state) :
    ∃ d bytes, describeProtocolObject sha256 state = .ok d ∧
      canonicalProtocolObjectBytes state = .ok bytes ∧ d.kind = .state ∧
      d.schema = stateSchema ∧ d.digest = js "sha256:" ++ sha256 (digestInput d.kind d.schema bytes) := by
  obtain ⟨hobject, hkind⟩ := object_of_parseState h
  obtain ⟨text, htext⟩ := exists_canonicalJson_iff.mpr (isUnicode_of_parseState h).1
  have hbytes : canonicalProtocolObjectBytes state = .ok (encodeUtf8 text) :=
    canonicalProtocolObjectBytes_eq_ok_iff.mpr
      ⟨hobject, canonicalProtocolBytes_eq_ok_iff.mpr ⟨text, htext, rfl⟩⟩
  refine ⟨⟨.state, stateSchema, js "sha256:" ++ sha256 (digestInput .state stateSchema _)⟩, _, ?_,
    hbytes, rfl, rfl, rfl⟩
  exact describeProtocolObject_eq_ok_iff.mpr ⟨_, hbytes, hkind, rfl⟩

/-- The same objects have the same bytes. -/
theorem canonicalProtocolObjectBytes_congr {a b : JsValue} {bytes : List UInt8}
    (h : JsValue.Same a b) (ha : canonicalProtocolObjectBytes a = .ok bytes) :
    canonicalProtocolObjectBytes b = .ok bytes := by
  obtain ⟨hparse, hbytes⟩ := canonicalProtocolObjectBytes_eq_ok_iff.mp ha
  obtain ⟨text, htext, htextBytes⟩ := canonicalProtocolBytes_eq_ok_iff.mp hbytes
  refine canonicalProtocolObjectBytes_eq_ok_iff.mpr ⟨?_, canonicalProtocolBytes_eq_ok_iff.mpr
    ⟨text, canonicalizeProtocolValue_congr h htext, htextBytes⟩⟩
  have hagree := parseProtocolObject_agree h
  rw [hparse] at hagree
  cases hb : parseProtocolObject b with
  | error e =>
    rw [hb] at hagree
    exact hagree.elim
  | ok parsed =>
    obtain rfl := parseProtocolObject_returns b parsed hb
    rfl

/-- The same objects have one descriptor. -/
theorem describeProtocolObject_congr {a b : JsValue} {d : ObjectDescriptor}
    (h : JsValue.Same a b) (ha : describeProtocolObject sha256 a = .ok d) :
    describeProtocolObject sha256 b = .ok d := by
  obtain ⟨bytes, hbytes, hkind, hdigest⟩ := describeProtocolObject_eq_ok_iff.mp ha
  exact describeProtocolObject_eq_ok_iff.mpr ⟨bytes, canonicalProtocolObjectBytes_congr h hbytes,
    (kindForSchema_congr h) ▸ hkind, hdigest⟩

end

/-- A State of the adapter whose value is a mapping. -/
structure IsMappingState (state : JsValue) (members : Record JsValue) : Prop where
  /-- It is a State. -/
  parses : parseState state = .ok state
  /-- It has the codec of the adapter. -/
  codec : assertYOpsState state = .ok ()
  /-- Its value is the mapping. -/
  value : part state "value" = .obj members

/-- A record with the names of another whose members are the same there reads alike. -/
theorem same_of_members {record entries : Record JsValue}
    (hnames : ∀ key ∈ Record.keys record, Record.has entries key = true)
    (hmembers : ∀ key value, Record.get entries key = some value →
      Record.has record key = true ∧ JsValue.Same ((Record.get record key).getD .null) value) :
    JsValue.Same (.obj record) (.obj entries) := by
  refine JsValue.denote_obj_eq_iff.mpr fun key => ?_
  cases hvalue : Record.get entries key with
  | none =>
    cases hown : Record.get record key with
    | none => rfl
    | some own =>
      have hhas := hnames key (Record.mem_keys.mpr (Record.has_eq_true.mpr ⟨own, hown⟩))
      rw [Record.has, hvalue] at hhas
      cases hhas
  | some value =>
    obtain ⟨hhas, hsame⟩ := hmembers key value hvalue
    obtain ⟨own, hown⟩ := Record.has_eq_true.mp hhas
    rw [hown] at hsame ⊢
    exact congrArg some hsame

/-- A State of the adapter is the one with its value. -/
theorem IsMappingState.same {state : JsValue} {members : Record JsValue}
    (h : IsMappingState state members) : JsValue.Same state (yopsState (.obj members)) := by
  obtain ⟨_, -, hparse⟩ := bind_eq_ok_iff.mp h.parses
  obtain ⟨record, hrecord, hparse⟩ := bind_eq_ok_iff.mp hparse
  obtain ⟨_, hschema, hparse⟩ := bind_eq_ok_iff.mp hparse
  obtain ⟨_, hcodec, -⟩ := bind_eq_ok_iff.mp hparse
  obtain ⟨rfl, hallowed, hrequired⟩ := closedRecord_eq_ok_iff.mp hrecord
  obtain ⟨codec, hclosed, -⟩ := bind_eq_ok_iff.mp hcodec
  obtain ⟨hcodecValue, hcodecAllowed, hcodecRequired⟩ := closedRecord_eq_ok_iff.mp hclosed
  rw [literal_eq_ok_iff] at hschema
  have hmedia := h.codec
  unfold assertYOpsState at hmedia
  split_ifs at hmedia with hcodecs
  simp only [not_or, not_not, part, hcodecValue] at hcodecs
  have hcodecSame : JsValue.Same (field record "codec") yopsStateCodec := by
    rw [hcodecValue]
    refine same_of_members (fun key hkey => ?_) fun key value hvalue => ?_
    · have hnames : ∀ key ∈ [js "mediaType", js "version"],
          Record.has [(js "mediaType", JsValue.str yopsStateMediaType),
            (js "version", .str yopsStateCodecVersion)] key = true := by decide
      exact hnames key (hcodecAllowed key hkey)
    · have hmem := Record.mem_of_get hvalue
      simp only [List.mem_cons, List.not_mem_nil, or_false, Prod.mk.injEq] at hmem
      rcases hmem with ⟨rfl, rfl⟩ | ⟨rfl, rfl⟩
      · exact ⟨hcodecRequired _ (by simp), congrArg _ hcodecs.1⟩
      · exact ⟨hcodecRequired _ (by simp), congrArg _ hcodecs.2⟩
  refine same_of_members (fun key hkey => ?_) fun key value hvalue => ?_
  · have hnames : ∀ key ∈ [js "schema", js "codec", js "value"], Record.has
        [(js "schema", JsValue.str stateSchema), (js "codec", yopsStateCodec), (js "value", .null)]
        key = true := by decide
    rw [← hnames key (hallowed key hkey)]
    simp only [Record.has, Record.get]
    split_ifs <;> rfl
  · have hmem := Record.mem_of_get hvalue
    simp only [List.mem_cons, List.not_mem_nil, or_false, Prod.mk.injEq] at hmem
    rcases hmem with ⟨rfl, rfl⟩ | ⟨rfl, rfl⟩ | ⟨rfl, rfl⟩
    · exact ⟨hrequired _ (by simp), congrArg _ hschema⟩
    · exact ⟨hrequired _ (by simp), hcodecSame⟩
    · exact ⟨hrequired _ (by simp), congrArg _ h.value⟩

/-- A value without lone surrogates has a State. -/
theorem parseState_yopsState {value : JsValue} (h : value.isUnicode = true) :
    parseState (yopsState value) = .ok (yopsState value) := by
  have hcodec : stateCodecRef yopsStateCodec (js "$.codec") = .ok () := by decide
  have hunicode : (yopsState value).isUnicode = true := by
    refine JsValue.isUnicode_obj.mpr fun key v hv => ?_
    have hmem := Record.mem_of_get hv
    simp only [List.mem_cons, List.not_mem_nil, or_false, Prod.mk.injEq] at hmem
    rcases hmem with ⟨rfl, rfl⟩ | ⟨rfl, rfl⟩ | ⟨rfl, rfl⟩
    · exact ⟨by decide, by decide⟩
    · exact ⟨by decide, by decide⟩
    · exact ⟨by decide, h⟩
  refine bind_eq_ok_iff.mpr ⟨(), assertProtocolDomain_of_isUnicode hunicode, ?_⟩
  refine bind_eq_ok_iff.mpr ⟨_, rfl, bind_eq_ok_iff.mpr ⟨(), if_pos rfl, ?_⟩⟩
  exact bind_eq_ok_iff.mpr ⟨(), hcodec, bind_eq_ok_iff.mpr
    ⟨(), assertProtocolDomain_of_isUnicode h, rfl⟩⟩

end T3x.Transition
