import T3x.Js.Order

/-!
# Canonical protocol text

The canonical JSON text of a protocol value: members sorted by code units, and
no unpaired surrogate in any string. The text is the JSON text of the value, so
two values of one canonical text are equal up to the order of members and the
sign of zero.
-/

namespace T3x.Transition

open Js

/-- The codes of protocol errors. -/
inductive ProtocolErrorCode where
  | objectNotFound
  | objectDigestMismatch
  | unsupportedMediaType
  | unsupportedSemantics
  | schemaInvalid
  | nonCanonicalValue
  | integrityChainInvalid
  | effectClaimFalse
  | staleBase
  deriving DecidableEq

/-- A protocol error: its code, its message and the path it names, if any. -/
structure ProtocolError where
  /-- The code. -/
  code : ProtocolErrorCode
  /-- The message. -/
  message : JsString
  /-- The path of the value at fault. -/
  path : Option JsString := none
  deriving DecidableEq

/-- A value outside the canonical domain. -/
def nonCanonicalValue (message : String) (path : JsString) : ProtocolError :=
  ⟨.nonCanonicalValue, js message, some path⟩

/-- `assertWellFormedUnicode(value, path)`: no surrogate stands alone. -/
def assertWellFormedUnicode : JsString → JsString → Except ProtocolError Unit
  | [], _ => .ok ()
  | [u], path =>
    if isHighSurrogate u then
      .error (nonCanonicalValue "String contains an unpaired high surrogate" path)
    else if isLowSurrogate u then
      .error (nonCanonicalValue "String contains an unpaired low surrogate" path)
    else .ok ()
  | u :: v :: s, path =>
    if isHighSurrogate u then
      if isLowSurrogate v then assertWellFormedUnicode s path
      else .error (nonCanonicalValue "String contains an unpaired high surrogate" path)
    else if isLowSurrogate u then
      .error (nonCanonicalValue "String contains an unpaired low surrogate" path)
    else assertWellFormedUnicode (v :: s) path

/-- The canonical text of a part of a value, at the path where the part stands. -/
abbrev CanonicalText := JsString → Except ProtocolError JsString

/-- The texts of the items of an array, from the index `i` on. -/
def itemTexts (path : JsString) : ℕ → List CanonicalText → Except ProtocolError (List JsString)
  | _, [] => .ok []
  | i, text :: texts =>
    match text (path ++ js "[" ++ natToString i ++ js "]") with
    | .error e => .error e
    | .ok item =>
      match itemTexts path (i + 1) texts with
      | .error e => .error e
      | .ok items => .ok (item :: items)

/-- The texts of the members of an object, in the given order. -/
def memberTexts (path : JsString) :
    List (JsString × CanonicalText) → Except ProtocolError (List JsString)
  | [] => .ok []
  | (key, text) :: members =>
    match assertWellFormedUnicode key (path ++ js " key") with
    | .error e => .error e
    | .ok _ =>
      match text (path ++ js "." ++ key) with
      | .error e => .error e
      | .ok value =>
        match memberTexts path members with
        | .error e => .error e
        | .ok rest => .ok (memberText (key, value) :: rest)

/-- `canonicalJson(value, path)`. -/
def canonicalJson : JsValue → CanonicalText :=
  JsValue.fold
    { null := fun _ => .ok (js "null")
      bool := fun b _ => .ok (if b then js "true" else js "false")
      num := fun n _ => .ok n.toText
      str := fun s path =>
        match assertWellFormedUnicode s path with
        | .error e => .error e
        | .ok _ => .ok (quote s)
      arr := fun texts path =>
        match itemTexts path 0 texts with
        | .error e => .error e
        | .ok items => .ok (unit '[' :: (join (unit ',') items ++ [unit ']']))
      obj := fun members path =>
        match memberTexts path (Record.sorted compareCodeUnits members) with
        | .error e => .error e
        | .ok entries => .ok (unit '\x7b' :: (join (unit ',') entries ++ [unit '\x7d'])) }

/-- `canonicalizeProtocolValue(value)`. -/
def canonicalizeProtocolValue (value : JsValue) : Except ProtocolError JsString :=
  canonicalJson value (js "$")

/-- The items' texts are the texts of the items. -/
theorem itemTexts_eq_ok {path : JsString} {i : ℕ} {items : List JsValue} {texts : List JsString}
    {encode : JsValue → JsString}
    (hitems : ∀ v ∈ items, ∀ path text, canonicalJson v path = .ok text → text = encode v)
    (h : itemTexts path i (items.map canonicalJson) = .ok texts) : texts = items.map encode := by
  induction items generalizing i texts with
  | nil => exact (Except.ok.inj h).symm
  | cons v items ih =>
    simp only [List.map_cons, itemTexts] at h
    cases hv : canonicalJson v (path ++ js "[" ++ natToString i ++ js "]") with
    | error e => simp only [hv, reduceCtorEq] at h
    | ok item =>
      cases hrest : itemTexts path (i + 1) (items.map canonicalJson) with
      | error e => simp only [hv, hrest, reduceCtorEq] at h
      | ok rest =>
        simp only [hv, hrest, Except.ok.injEq] at h
        rw [← h, List.map_cons, hitems v List.mem_cons_self _ _ hv,
          ih (fun w hw => hitems w (List.mem_cons_of_mem _ hw)) hrest]

/-- The members' texts are the texts of the members. -/
theorem memberTexts_eq_ok {path : JsString} {members : Record JsValue} {texts : List JsString}
    {encode : JsValue → JsString}
    (hmembers : ∀ e ∈ members, ∀ path text, canonicalJson e.2 path = .ok text → text = encode e.2)
    (h : memberTexts path (Record.mapValues canonicalJson members) = .ok texts) :
    texts = (Record.mapValues encode members).map memberText := by
  induction members generalizing texts with
  | nil => exact (Except.ok.inj h).symm
  | cons e members ih =>
    obtain ⟨key, v⟩ := e
    simp only [Record.mapValues, List.map_cons, memberTexts] at h
    cases hkey : assertWellFormedUnicode key (path ++ js " key") with
    | error e => simp only [hkey, reduceCtorEq] at h
    | ok _ =>
      cases hv : canonicalJson v (path ++ js "." ++ key) with
      | error e => simp only [hkey, hv, reduceCtorEq] at h
      | ok value =>
        cases hrest : memberTexts path (Record.mapValues canonicalJson members) with
        | error e =>
          rw [Record.mapValues] at hrest
          simp only [hkey, hv, hrest, reduceCtorEq] at h
        | ok rest =>
          have hih := ih (fun e he => hmembers e (List.mem_cons_of_mem _ he)) hrest
          rw [Record.mapValues] at hrest
          simp only [hkey, hv, hrest, Except.ok.injEq] at h
          rw [← h, hih, hmembers _ List.mem_cons_self _ _ hv]
          rfl

/-- Sorting the members and mapping their values commute. -/
theorem sorted_mapValues {V W : Type} (f : V → W) (m : Record V) :
    Record.sorted compareCodeUnits (Record.mapValues f m) =
      Record.mapValues f (Record.sorted compareCodeUnits m) := by
  unfold Record.sorted sortBy
  rw [Record.entries_mapValues]
  unfold Record.mapValues
  refine (List.map_mergeSort ?_).symm
  intro a _ b _
  rfl

/-- The canonical text of a value is its JSON text with sorted members. -/
theorem canonicalJson_eq_encode {value : JsValue} {path text : JsString}
    (h : canonicalJson value path = .ok text) :
    text = value.encode (Record.sorted compareCodeUnits) := by
  induction value using JsValue.induct generalizing path text with
  | null => exact (Except.ok.inj h).symm
  | bool b => exact (Except.ok.inj h).symm
  | num n => exact (Except.ok.inj h).symm
  | str s =>
    simp only [canonicalJson, JsValue.fold] at h
    cases hs : assertWellFormedUnicode s path with
    | error e => simp only [hs, reduceCtorEq] at h
    | ok _ =>
      simp only [hs, Except.ok.injEq] at h
      exact h.symm
  | arr items ih =>
    rw [canonicalJson, JsValue.fold_arr] at h
    simp only at h
    rw [← canonicalJson] at h
    cases hitems : itemTexts path 0 (items.map canonicalJson) with
    | error e => simp only [hitems, reduceCtorEq] at h
    | ok texts =>
      simp only [hitems, Except.ok.injEq] at h
      rw [← h, JsValue.encode_arr, itemTexts_eq_ok (fun v hv _ _ => ih v hv) hitems]
  | obj members ih =>
    rw [canonicalJson, JsValue.fold_obj] at h
    simp only at h
    rw [← canonicalJson, sorted_mapValues] at h
    cases hmembers : memberTexts path
      (Record.mapValues canonicalJson (Record.sorted compareCodeUnits members)) with
    | error e => simp only [hmembers, reduceCtorEq] at h
    | ok texts =>
      have hentries : ∀ e ∈ Record.sorted compareCodeUnits members, e ∈ members := by
        intro e he
        have hget := Record.mem_entries.mp ((Record.sorted_perm compareCodeUnits members).mem_iff.mp he)
        exact Record.mem_of_get hget
      simp only [hmembers, Except.ok.injEq] at h
      rw [← h, JsValue.encode_obj, sorted_mapValues,
        memberTexts_eq_ok (fun e he _ _ => ih e (hentries e he)) hmembers]

/-- Values of one canonical text are equal up to the order of members and the
sign of zero. -/
theorem denote_eq_of_canonical {a b : JsValue} {text : JsString}
    (ha : canonicalizeProtocolValue a = .ok text) (hb : canonicalizeProtocolValue b = .ok text) :
    a.denote JsNumber.dropZeroSign = b.denote JsNumber.dropZeroSign := by
  apply (JsValue.encode_sorted_eq_iff isStringOrder_compareCodeUnits).mp
  rw [← canonicalJson_eq_encode ha, ← canonicalJson_eq_encode hb]

end T3x.Transition
