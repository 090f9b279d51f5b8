import T3x.Transition.Sets
import T3x.Js.Ascii

/-!
# The canonical order of descriptors

The canonical text of a descriptor begins with its digest, and the digests have
one length. So descriptors of one kind have the order of their digests, and
those that ascend by digest are a canonical set.
-/

namespace T3x.Transition

open Js Independent

/-! ## Comparing bytes -/

/-- What stands in front of both does not decide. -/
theorem compareBytes_append_left (s a b : List UInt8) :
    compareBytes (s ++ a) (s ++ b) = compareBytes a b := by
  induction s with
  | nil => rfl
  | cons x s ih => rw [List.cons_append, List.cons_append, compareBytes, if_pos rfl, ih]

/-- What stands behind both of one length does not decide. -/
theorem compareBytes_append_right {a b : List UInt8} (h : a.length = b.length) (s : List UInt8) :
    compareBytes (a ++ s) (b ++ s) = compareBytes a b := by
  induction a generalizing b with
  | nil =>
    obtain rfl := List.length_eq_zero_iff.mp h.symm
    rw [List.nil_append, compareBytes_eq_zero_iff.mpr rfl, compareBytes_eq_zero_iff.mpr rfl]
  | cons x a ih =>
    cases b with
    | nil => simp at h
    | cons y b =>
      rw [List.cons_append, List.cons_append, compareBytes, compareBytes,
        ih (Nat.succ.inj h)]

/-- The bytes of ASCII texts have the order of the texts. -/
theorem compareBytes_unitBytes_neg_iff {a b : JsString} (ha : IsAscii a) (hb : IsAscii b) :
    compareBytes (unitBytes a) (unitBytes b) < 0 ↔ compareCodeUnits a b < 0 := by
  induction a generalizing b with
  | nil => cases b <;> simp [unitBytes, compareBytes, compareCodeUnits, comparePoints]; omega
  | cons u a ih =>
    cases b with
    | nil => simp [unitBytes, compareBytes, compareCodeUnits, comparePoints]; omega
    | cons v b =>
      have hu : u.toNat.toUInt8.toNat = u.toNat := toNat_toUInt8 (by
        have := ha u List.mem_cons_self
        omega)
      have hv : v.toNat.toUInt8.toNat = v.toNat := toNat_toUInt8 (by
        have := hb v List.mem_cons_self
        omega)
      have hrest := ih (fun x hx => ha x (List.mem_cons_of_mem _ hx))
        (b := b) fun x hx => hb x (List.mem_cons_of_mem _ hx)
      simp only [compareCodeUnits, unitBytes, List.map_cons, compareBytes, comparePoints] at hrest ⊢
      by_cases heq : u.toNat = v.toNat
      · rw [if_pos heq, if_pos (congrArg Nat.toUInt8 heq)]
        exact hrest
      · have hne : u.toNat.toUInt8 ≠ v.toNat.toUInt8 := fun h => heq (by
          rw [← hu, ← hv, h])
        rw [if_neg heq, if_neg hne, hu, hv]
        split_ifs <;> omega

/-! ## The text of a descriptor -/

/-- A digest is a plain text. -/
theorem isPlain_digest {s : JsString} (h : IsHashText s) : IsPlain (js "sha256:" ++ s) := by
  intro u hu
  rcases List.mem_append.mp hu with hu | hu
  · have hplain : IsPlain (js "sha256:") := by decide
    exact hplain u hu
  · have hhex := h.2 u hu
    have h48 : (48 : UInt16).toNat = 48 := rfl
    have h57 : (57 : UInt16).toNat = 57 := rfl
    have h97 : (97 : UInt16).toNat = 97 := rfl
    have h102 : (102 : UInt16).toNat = 102 := rfl
    have hquote : (unit '"').toNat = 34 := rfl
    have hslash : (unit '\\').toNat = 92 := rfl
    simp only [isLowerHex, isDigit, Bool.or_eq_true, Bool.and_eq_true, decide_eq_true_eq,
      UInt16.le_iff_toNat_le, h48, h57, h97, h102] at hhex
    refine ⟨by omega, by omega, fun heq => ?_, fun heq => ?_⟩
    · rw [heq, hquote] at hhex
      omega
    · rw [heq, hslash] at hhex
      omega

/-- A descriptor of a kind. -/
def descriptorWith (kind : ObjectKind) (digest : JsString) : ObjectDescriptor :=
  ⟨kind, expectedSchema kind, digest⟩

/-- What stands in the text of a descriptor in front of the digest. -/
def digestOpening : JsString := js "\x7b\"digest\":\""

/-- What stands in the text of a descriptor behind the digest. -/
def digestClosing (kind : ObjectKind) : JsString :=
  js "\",\"kind\":\"" ++ kind.text ++ js "\",\"schema\":\"" ++ expectedSchema kind ++ js "\"\x7d"

/-- Sorting leaves three members in order as they are. -/
theorem sorted_of_ascending {V : Type} {a b c : JsString} (x y z : V)
    (hab : compareCodeUnits a b < 0) (hbc : compareCodeUnits b c < 0) :
    Record.sorted compareCodeUnits [(a, x), (b, y), (c, z)] = [(a, x), (b, y), (c, z)] := by
  have hc := isStringOrder_compareCodeUnits.isComparison
  have hac := hc.lt_trans hab hbc
  have hne : ∀ {s t : JsString}, compareCodeUnits s t < 0 → t ≠ s := by
    rintro s t h rfl
    rw [hc.refl] at h
    exact lt_irrefl _ h
  have hentries : Record.entries [(a, x), (b, y), (c, z)] = [(a, x), (b, y), (c, z)] := by
    simp [Record.entries, hne hab, hne hbc, hne hac]
  rw [Record.sorted, hentries, sortBy]
  refine List.mergeSort_of_pairwise ?_
  simp [hab.le, hbc.le, hac.le]

/-- The text of a descriptor has the digest first. -/
theorem encode_descriptor (kind : ObjectKind) {digest : JsString} (h : IsPlain digest) :
    (descriptorWith kind digest).value.encode (Record.sorted compareCodeUnits) =
      digestOpening ++ digest ++ digestClosing kind := by
  have hsame : JsValue.Same (descriptorWith kind digest).value
      (.obj [(js "digest", .str digest), (js "kind", .str kind.text),
        (js "schema", .str (expectedSchema kind))]) := by
    refine JsValue.denote_obj_eq_iff.mpr fun key => ?_
    have hdigest : js "digest" ≠ js "kind" := by decide
    have hschema : js "digest" ≠ js "schema" := by decide
    simp only [descriptorWith, Record.get]
    split_ifs <;> simp_all
  have hkind : quoteBody kind.text = kind.text := by cases kind <;> decide
  have hschema : quoteBody (expectedSchema kind) = expectedSchema kind := by cases kind <;> decide
  rw [(JsValue.encode_sorted_eq_iff isStringOrder_compareCodeUnits).mpr hsame]
  rw [JsValue.encode_obj]
  simp only [Record.mapValues, List.map_cons, List.map_nil]
  rw [sorted_of_ascending _ _ _ (by decide) (by decide)]
  simp only [List.map_cons, List.map_nil, join_cons_cons, join_singleton, memberText]
  change unit '\x7b' :: ((quote (js "digest") ++ unit ':' :: quote digest) ++ unit ',' ::
    ((quote (js "kind") ++ unit ':' :: quote kind.text) ++ unit ',' ::
      (quote (js "schema") ++ unit ':' :: quote (expectedSchema kind))) ++ [unit '\x7d']) = _
  -- every text between quotes is plain
  have hopening : digestOpening = unit '\x7b' :: (quote (js "digest") ++ [unit ':', unit '"']) := by
    decide
  have hmiddle : js "\",\"kind\":\"" =
      unit '"' :: unit ',' :: (quote (js "kind") ++ [unit ':', unit '"']) := by decide
  have hlast : js "\",\"schema\":\"" =
      unit '"' :: unit ',' :: (quote (js "schema") ++ [unit ':', unit '"']) := by decide
  have hclosing : js "\"\x7d" = [unit '"', unit '\x7d'] := by decide
  have hquote : ∀ {text : JsString}, quoteBody text = text →
      quote text = unit '"' :: (text ++ [unit '"']) := fun htext => by rw [quote, htext]
  rw [hquote (quoteBody_of_isPlain h), hquote hkind, hquote hschema, digestClosing, hopening,
    hmiddle, hlast, hclosing]
  simp only [List.append_assoc, List.cons_append, List.nil_append]

/-- A digest with a hash text. -/
def IsDigest (digest : JsString) : Prop := ∃ hash, IsHashText hash ∧ digest = js "sha256:" ++ hash

/-- The digests have one length. -/
theorem IsDigest.length_eq {digest : JsString} (h : IsDigest digest) : digest.length = 71 := by
  obtain ⟨hash, hhash, rfl⟩ := h
  have hstart : (js "sha256:").length = 7 := by decide
  rw [List.length_append, hhash.1, hstart]

/-- The canonical bytes of a descriptor. -/
theorem canonicalProtocolBytes_descriptor (kind : ObjectKind) {digest : JsString}
    (h : IsDigest digest) : canonicalProtocolBytes (descriptorWith kind digest).value =
      .ok (unitBytes (digestOpening ++ digest ++ digestClosing kind)) := by
  obtain ⟨hash, hhash, rfl⟩ := h
  have hplain := isPlain_digest hhash
  have hunicode : (descriptorWith kind (js "sha256:" ++ hash)).value.isUnicode = true :=
    isUnicode_descriptor rfl rfl hhash
  obtain ⟨text, htext⟩ := exists_canonicalJson_iff.mpr hunicode
  have hencode := canonicalJson_eq_encode htext
  rw [encode_descriptor kind hplain] at hencode
  have hopening : IsAscii digestOpening := by decide
  have hclosing : IsAscii (digestClosing kind) := by cases kind <;> decide
  have hascii : IsAscii text := by
    rw [hencode]
    exact isAscii_append.mpr ⟨isAscii_append.mpr ⟨hopening, hplain.isAscii⟩, hclosing⟩
  refine canonicalProtocolBytes_eq_ok_iff.mpr ⟨text, htext, ?_⟩
  rw [encodeUtf8_of_isAscii hascii, hencode]

/-- Descriptors of one kind have the order of their digests. -/
theorem compareCanonicalValues_descriptor (kind : ObjectKind) {digest digest' : JsString}
    (h : IsDigest digest) (h' : IsDigest digest') :
    ∃ comparison, compareCanonicalValues (descriptorWith kind digest).value
        (descriptorWith kind digest').value = .ok comparison ∧
      (comparison < 0 ↔ compareCodeUnits digest digest' < 0) := by
  refine ⟨_, bind_eq_ok_iff.mpr ⟨_, canonicalProtocolBytes_descriptor kind h,
    bind_eq_ok_iff.mpr ⟨_, canonicalProtocolBytes_descriptor kind h', rfl⟩⟩, ?_⟩
  have hlength : (unitBytes digest).length = (unitBytes digest').length := by
    simp [unitBytes, h.length_eq, h'.length_eq]
  have hascii : ∀ {text : JsString}, IsDigest text → IsAscii text := by
    rintro _ ⟨hash, hhash, rfl⟩
    exact (isPlain_digest hhash).isAscii
  have hsplit : ∀ text : JsString, unitBytes (digestOpening ++ text ++ digestClosing kind) =
      unitBytes digestOpening ++ (unitBytes text ++ unitBytes (digestClosing kind)) := by
    intro text
    simp [unitBytes]
  rw [hsplit, hsplit, compareBytes_append_left, compareBytes_append_right hlength]
  exact compareBytes_unitBytes_neg_iff (hascii h) (hascii h')

/-- Descriptors of one kind that ascend by digest are a canonical set. -/
theorem canonicalSet_of_ascending (kind : ObjectKind) {digests : List JsString} {path : JsString}
    (hdigests : ∀ digest ∈ digests, IsDigest digest)
    (h : digests.IsChain fun a b => compareCodeUnits a b < 0) :
    canonicalSet path (digests.map fun digest => (descriptorWith kind digest).value) = .ok () := by
  induction digests with
  | nil => rfl
  | cons a digests ih =>
    cases digests with
    | nil => rfl
    | cons b digests =>
      obtain ⟨hab, hrest⟩ := List.isChain_cons_cons.mp h
      obtain ⟨comparison, hcomparison, hneg⟩ := compareCanonicalValues_descriptor kind
        (hdigests a List.mem_cons_self) (hdigests b (List.mem_cons_of_mem _ List.mem_cons_self))
      have hlt := hneg.mpr hab
      refine bind_eq_ok_iff.mpr ⟨comparison, hcomparison, refuse_eq_ok_iff.mpr ⟨by omega, ?_⟩⟩
      exact refuse_eq_ok_iff.mpr
        ⟨by omega, ih (fun d hd => hdigests d (List.mem_cons_of_mem _ hd)) hrest⟩

end T3x.Transition
