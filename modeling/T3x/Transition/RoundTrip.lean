import T3x.Transition.Accept
import T3x.Js.Utf8

/-!
# Canonical texts read back

The canonical text of a protocol value is a JSON text that spells the value, so
the strict parser reads it back, from the string and from its bytes. What it
reads has the same canonical text.
-/

namespace T3x.Transition

open Js

/-- The items of an array have texts exactly when each has one. -/
theorem exists_itemTexts_iff {path : JsString} {i : ℕ} {items : List JsValue}
    (h : ∀ v ∈ items, ∀ path, (∃ text, canonicalJson v path = .ok text) ↔ v.isUnicode = true) :
    (∃ texts, itemTexts path i (items.map canonicalJson) = .ok texts) ↔
      ∀ v ∈ items, v.isUnicode = true := by
  induction items generalizing i with
  | nil => exact ⟨fun _ _ hv => absurd hv List.not_mem_nil, fun _ => ⟨[], rfl⟩⟩
  | cons v items ih =>
    have hrest := ih (i := i + 1) fun w hw => h w (List.mem_cons_of_mem _ hw)
    rw [List.forall_mem_cons, ← hrest,
      ← h v List.mem_cons_self (path ++ js "[" ++ natToString i ++ js "]"), List.map_cons, itemTexts]
    cases canonicalJson v (path ++ js "[" ++ natToString i ++ js "]") with
    | error e => simp
    | ok text => cases itemTexts path (i + 1) (items.map canonicalJson) <;> simp

/-- Members have texts exactly when each name is well formed and each value has one. -/
theorem exists_memberTexts_iff {path : JsString} {members : Record JsValue}
    (h : ∀ e ∈ members, ∀ path,
      (∃ text, canonicalJson e.2 path = .ok text) ↔ e.2.isUnicode = true) :
    (∃ texts, memberTexts path (Record.mapValues canonicalJson members) = .ok texts) ↔
      ∀ e ∈ members, isWellFormed e.1 = true ∧ e.2.isUnicode = true := by
  induction members with
  | nil => exact ⟨fun _ _ he => absurd he List.not_mem_nil, fun _ => ⟨[], rfl⟩⟩
  | cons e members ih =>
    obtain ⟨key, v⟩ := e
    have hrest := ih fun w hw => h w (List.mem_cons_of_mem _ hw)
    have hv := h (key, v) List.mem_cons_self (path ++ js "." ++ key)
    have hkey : assertWellFormedUnicode key (path ++ js " key") = .ok () ↔ isWellFormed key = true :=
      assertWellFormedUnicode_eq_ok_iff
    simp only at hv
    rw [List.forall_mem_cons, ← hrest, ← hv, ← hkey]
    simp only [Record.mapValues, List.map_cons, memberTexts]
    cases assertWellFormedUnicode key (path ++ js " key") with
    | error e => simp
    | ok _ =>
      cases canonicalJson v (path ++ js "." ++ key) with
      | error e => simp
      | ok text =>
        cases memberTexts path (members.map fun e => (e.1, canonicalJson e.2)) <;> simp

/-- A value has a canonical text exactly when no string of it has a lone surrogate. -/
theorem exists_canonicalJson_iff {value : JsValue} {path : JsString} :
    (∃ text, canonicalJson value path = .ok text) ↔ value.isUnicode = true := by
  induction value using JsValue.induct generalizing path with
  | null => exact ⟨fun _ => rfl, fun _ => ⟨_, rfl⟩⟩
  | bool b => exact ⟨fun _ => rfl, fun _ => ⟨_, rfl⟩⟩
  | num n => exact ⟨fun _ => rfl, fun _ => ⟨_, rfl⟩⟩
  | str s =>
    have hs : assertWellFormedUnicode s path = .ok () ↔ isWellFormed s = true :=
      assertWellFormedUnicode_eq_ok_iff
    rw [JsValue.isUnicode, JsValue.fold, ← hs]
    simp only [canonicalJson, JsValue.fold]
    cases assertWellFormedUnicode s path <;> simp
  | arr items ih =>
    have hitems : (∃ texts, itemTexts path 0 (items.map canonicalJson) = .ok texts) ↔
        ∀ v ∈ items, v.isUnicode = true := exists_itemTexts_iff fun v hv _ => ih v hv
    rw [JsValue.isUnicode_arr, ← hitems, canonicalJson, JsValue.fold_arr]
    simp only
    rw [← canonicalJson]
    cases itemTexts path 0 (items.map canonicalJson) <;> simp
  | obj members ih =>
    have hentries : ∀ e ∈ Record.sorted compareCodeUnits members, e ∈ members := fun e he =>
      Record.mem_of_get (Record.mem_entries.mp
        ((Record.sorted_perm compareCodeUnits members).mem_iff.mp he))
    have hmembers : (∃ texts, memberTexts path (Record.mapValues canonicalJson
          (Record.sorted compareCodeUnits members)) = .ok texts) ↔
        ∀ e ∈ Record.sorted compareCodeUnits members,
          isWellFormed e.1 = true ∧ e.2.isUnicode = true :=
      exists_memberTexts_iff fun e he _ => ih e (hentries e he)
    have hunicode : (JsValue.obj members).isUnicode = true ↔
        ∀ e ∈ Record.sorted compareCodeUnits members,
          isWellFormed e.1 = true ∧ e.2.isUnicode = true := by
      rw [JsValue.isUnicode_obj]
      simp only [(Record.sorted_perm compareCodeUnits members).mem_iff, Prod.forall,
        Record.mem_entries]
    rw [hunicode, ← hmembers, canonicalJson, JsValue.fold_obj]
    simp only
    rw [← canonicalJson, sorted_mapValues]
    cases memberTexts path
      (Record.mapValues canonicalJson (Record.sorted compareCodeUnits members)) <;> simp

/-- Values that are equal up to the order of members and the sign of zero have one
canonical text. -/
theorem canonicalizeProtocolValue_congr {v w : JsValue} {text : JsString}
    (h : v.denote JsNumber.dropZeroSign = w.denote JsNumber.dropZeroSign)
    (hv : canonicalizeProtocolValue v = .ok text) : canonicalizeProtocolValue w = .ok text := by
  have hunicode := exists_canonicalJson_iff.mp ⟨text, hv⟩
  rw [JsValue.isUnicode_congr h] at hunicode
  obtain ⟨text', hw⟩ := exists_canonicalJson_iff.mpr hunicode
  rw [canonicalJson_eq_encode hv, JsValue.encode_sorted_eq_iff isStringOrder_compareCodeUnits |>.mpr h,
    ← canonicalJson_eq_encode hw]
  exact hw

/-- The canonical text of a value reads back as the value. -/
theorem parse_canonical {value : JsValue} {text : JsString}
    (h : canonicalizeProtocolValue value = .ok text) : ∃ back, parseProtocolJson text = .ok back ∧
      back.denote JsNumber.dropZeroSign = value.denote JsNumber.dropZeroSign := by
  have hblank : IsBlanks [] := fun _ hu => absurd hu List.not_mem_nil
  obtain ⟨tree, hvalue, hstrict, hdenote⟩ := JsValue.spells_encode
    (Record.sorted_perm compareCodeUnits) (exists_canonicalJson_iff.mp ⟨text, h⟩)
  rw [← canonicalJson_eq_encode h] at hvalue
  have htext := IsJsonText.intro hblank hvalue hblank
  rw [List.nil_append, List.append_nil] at htext
  exact ⟨tree.value, parseProtocolJson_of_isJsonText htext hstrict, hdenote⟩

/-! ## Bytes -/

/-- `canonicalProtocolBytes(value)`. -/
def canonicalProtocolBytes (value : JsValue) : Except ProtocolError (List UInt8) :=
  (canonicalizeProtocolValue value).map encodeUtf8

/-- `parseProtocolJson(bytes)` for bytes. -/
def parseProtocolJsonBytes (bytes : List UInt8) : Except ProtocolError JsValue :=
  match decodeUtf8 bytes with
  | none => .error ⟨.schemaInvalid, js "Protocol bytes are not valid UTF-8", none⟩
  | some source => parseProtocolJson source

/-- A canonical text is well formed. -/
theorem isWellFormed_canonical {value : JsValue} {text : JsString}
    (h : canonicalizeProtocolValue value = .ok text) : isWellFormed text = true := by
  rw [canonicalJson_eq_encode h]
  exact JsValue.isWellFormed_encode (Record.sorted_perm compareCodeUnits) value

/-- A canonical text does not begin with a byte order mark. -/
theorem head_canonical {value : JsValue} {text : JsString}
    (h : canonicalizeProtocolValue value = .ok text) : text.head? ≠ some 0xFEFF := by
  obtain ⟨c, rest, htext, hc⟩ := @JsValue.encode_lead (Record.sorted compareCodeUnits) value
  rw [canonicalJson_eq_encode h, htext, List.head?_cons]
  intro hmark
  obtain rfl := Option.some.inj hmark
  cases value with
  | num n =>
    have hn : n.toText = 0xFEFF :: rest := htext
    exact absurd (isNumberUnit_of_mem_toText (hn ▸ List.mem_cons_self)) (by decide)
  | bool b => cases b <;> exact absurd hc (by decide)
  | _ => exact absurd hc (by simp only [JsValue.kind]; decide)

/-- The bytes of a canonical text read as the text. -/
theorem parse_encodeUtf8 {value : JsValue} {text : JsString}
    (h : canonicalizeProtocolValue value = .ok text) :
    parseProtocolJsonBytes (encodeUtf8 text) = parseProtocolJson text := by
  rw [parseProtocolJsonBytes, decodeUtf8_encodeUtf8 (isWellFormed_canonical h) (head_canonical h)]

/-- A value has canonical bytes exactly when it has a canonical text with these bytes. -/
theorem canonicalProtocolBytes_eq_ok_iff {value : JsValue} {bytes : List UInt8} :
    canonicalProtocolBytes value = .ok bytes ↔
      ∃ text, canonicalizeProtocolValue value = .ok text ∧ encodeUtf8 text = bytes :=
  map_eq_ok_iff

/-- Values with the same canonical bytes are equal up to the order of members and the sign of
zero. -/
theorem denote_eq_of_canonicalBytes {value other : JsValue} {text : JsString}
    (hother : canonicalProtocolBytes other = .ok (encodeUtf8 text))
    (h : canonicalizeProtocolValue value = .ok text) :
    other.denote JsNumber.dropZeroSign = value.denote JsNumber.dropZeroSign := by
  obtain ⟨text', htext', hbytes⟩ := canonicalProtocolBytes_eq_ok_iff.mp hother
  rw [encodeUtf8_inj (isWellFormed_canonical htext') (isWellFormed_canonical h) hbytes] at htext'
  exact denote_eq_of_canonical htext' h

/-- What the canonical encoding of a value promises. -/
structure Encodes (value : JsValue) (text : JsString) : Prop where
  /-- The text reads back as the value, up to the order of members and the sign of zero,
  and what is read has the same text. -/
  roundTrip : ∃ back, parseProtocolJson text = .ok back ∧
    back.denote JsNumber.dropZeroSign = value.denote JsNumber.dropZeroSign ∧
    canonicalizeProtocolValue back = .ok text
  /-- The bytes of the text read as the text does. -/
  bytes : parseProtocolJsonBytes (encodeUtf8 text) = parseProtocolJson text
  /-- Another value with the same bytes is equal up to the order of members and the sign
  of zero. -/
  injective : ∀ other, canonicalProtocolBytes other = .ok (encodeUtf8 text) →
    other.denote JsNumber.dropZeroSign = value.denote JsNumber.dropZeroSign

/-- The canonical encoding of every value that has one reads back and is its own. -/
theorem canonical_encodes {value : JsValue} {text : JsString}
    (h : canonicalizeProtocolValue value = .ok text) : Encodes value text := by
  obtain ⟨back, hparse, hdenote⟩ := parse_canonical h
  exact ⟨⟨back, hparse, hdenote, canonicalizeProtocolValue_congr hdenote.symm h⟩,
    parse_encodeUtf8 h, fun other hother => denote_eq_of_canonicalBytes hother h⟩

/-- A nested array with a number and escaped text. -/
theorem canonical_encodes_nested : Encodes
    (.arr [.num .zero, .arr [.str [10, 34], .bool true], .null])
    (js "[0,[\"\\n\\\"\",true],null]") :=
  canonical_encodes (by decide)

end T3x.Transition
