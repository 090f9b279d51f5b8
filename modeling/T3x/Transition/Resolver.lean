import T3x.Transition.Identity

/-!
# The store is faithful

An object that has been put into the store resolves from its descriptor to an
object with the same canonical bytes, if no two different inputs that were hashed
for the objects have one hash. Whatever a resolver returns, an object that is
resolved has the bytes that the resolver returned and the requested descriptor.
-/

namespace T3x.Transition

open Js

/-! ## What the checks return -/

/-- The check of a State returns the value. -/
theorem parseState_returns (a : JsValue) : Returns (parseState a) (· = a) :=
  .bind fun _ => .bind fun _ => .bind fun _ => .bind fun _ => .bind fun _ => .pure rfl

/-- The check of an Effect definition returns the value. -/
theorem parseEffectDefinition_returns (a : JsValue) :
    Returns (parseEffectDefinition a) (· = a) :=
  .bind fun _ => .bind fun _ => .bind fun _ => .bind fun _ => .bind fun _ => .bind fun _ =>
    .bind fun _ => .pure rfl

/-- The check of an Effect returns the value. -/
theorem parseEffect_returns (a : JsValue) : Returns (parseEffect a) (· = a) :=
  .bind fun _ => .bind fun _ => .bind fun _ => .bind fun _ => .bind fun _ => .bind fun _ => .pure rfl

/-- The check of a Statement returns the value. -/
theorem parseStatement_returns (a : JsValue) : Returns (parseStatement a) (· = a) := by
  refine .bind fun _ => .bind fun _ => .bind fun _ => .bind fun _ => ?_
  refine .ite (fun _ => .throw_bind _) fun _ => ?_
  refine .bind fun _ => .bind fun _ => .bind fun _ => .bind fun _ => ?_
  refine .ite (fun _ => ?_) fun _ => .ite (fun _ => ?_) fun _ => .bind fun _ => .pure rfl
  · exact .ite (fun _ => .throw_bind _) fun _ => .bind fun _ => .pure rfl
  · exact .ite (fun _ => .throw_bind _) fun _ => .bind fun _ => .pure rfl

/-- The check of a Commit returns the value. -/
theorem parseCommitV2_returns (a : JsValue) : Returns (parseCommitV2 a) (· = a) :=
  .bind fun _ => .bind fun _ => .bind fun _ => .bind fun _ => .bind fun _ => .bind fun _ =>
    .bind fun _ => .pure rfl

/-- The check of an object returns the value. -/
theorem parseProtocolObject_returns (a : JsValue) : Returns (parseProtocolObject a) (· = a) := by
  refine .bind fun _ => .bind fun _ => ?_
  exact .ite (fun _ => parseState_returns a) fun _ => .ite (fun _ => parseEffect_returns a) fun _ =>
    .ite (fun _ => parseStatement_returns a) fun _ => .ite (fun _ => parseCommitV2_returns a)
      fun _ => .throw _

/-- A closed record is an object with allowed names only and all the required ones. -/
theorem closedRecord_eq_ok_iff {value : JsValue} {path : JsString} {required allowed : List JsString}
    {record : Record JsValue} : closedRecord value path required allowed = .ok record ↔
      value = .obj record ∧ (∀ key ∈ Record.keys record, key ∈ allowed) ∧
        ∀ key ∈ required, Record.has record key = true := by
  unfold closedRecord
  split
  next members =>
    simp only [JsValue.obj.injEq]
    split
    next key hkey =>
      have hmem := List.mem_of_find?_eq_some hkey
      have hnot := List.find?_some hkey
      simp only [reduceCtorEq, false_iff, not_and]
      rintro rfl hallowed
      simp [hallowed key hmem] at hnot
    next hallowed =>
      simp only [List.find?_eq_none, Bool.not_eq_true, Bool.not_eq_false',
        List.contains_iff_mem] at hallowed
      split
      next key hkey =>
        have hmem := List.mem_of_find?_eq_some hkey
        have hnot := List.find?_some hkey
        simp only [reduceCtorEq, false_iff, not_and]
        rintro rfl - hrequired
        simp [hrequired key hmem] at hnot
      next hrequired =>
        simp only [List.find?_eq_none, Bool.not_eq_true, Bool.not_eq_false'] at hrequired
        constructor
        · intro h
          obtain rfl := Except.ok.inj h
          exact ⟨rfl, hallowed, hrequired⟩
        · rintro ⟨rfl, -⟩
          rfl
  next hvalue =>
    simp only [reduceCtorEq, false_iff, not_and]
    rintro rfl
    exact absurd rfl (hvalue record)

/-- A closed record stays one when more names are allowed and fewer are required. -/
theorem closedRecord_mono {value : JsValue} {path : JsString} {record : Record JsValue}
    {required allowed required' allowed' : List JsString}
    (h : closedRecord value path required allowed = .ok record)
    (hallowed : ∀ key ∈ allowed, key ∈ allowed') (hrequired : ∀ key ∈ required', key ∈ required) :
    closedRecord value path required' allowed' = .ok record := by
  obtain ⟨hvalue, hnames, hpresent⟩ := closedRecord_eq_ok_iff.mp h
  exact closedRecord_eq_ok_iff.mpr ⟨hvalue, fun key hkey => hallowed key (hnames key hkey),
    fun key hkey => hpresent key (hrequired key hkey)⟩

/-- An object has the kind of its schema, whose schema it is. -/
theorem kindForSchema_of_parse {a : JsValue} (h : parseProtocolObject a = .ok a) :
    ∃ kind, kindForSchema a = some (kind, expectedSchema kind) := by
  obtain ⟨_, -, h⟩ := bind_eq_ok_iff.mp h
  obtain ⟨record, hrecord, h⟩ := bind_eq_ok_iff.mp h
  obtain ⟨rfl, -⟩ := closedRecord_eq_ok_iff.mp hrecord
  unfold kindForSchema
  dsimp only
  split_ifs at h ⊢
  · exact ⟨.state, rfl⟩
  · exact ⟨.effect, rfl⟩
  · exact ⟨.statement, rfl⟩
  · exact ⟨.commit, rfl⟩

/-- A literal that is checked is the expected string. -/
theorem literal_eq_ok_iff {value : JsValue} {expected path : JsString} :
    literal value expected path = .ok () ↔ value = .str expected := by
  unfold literal
  split_ifs with h <;> simp [h]

/-- A value that is checked has no lone surrogates. -/
theorem isUnicode_of_assertProtocolDomain {a : JsValue} (h : assertProtocolDomain a = .ok ()) :
    a.isUnicode = true := by
  unfold assertProtocolDomain at h
  cases htext : canonicalizeProtocolValue a with
  | error e =>
    rw [htext] at h
    cases h
  | ok text => exact exists_canonicalJson_iff.mp ⟨text, htext⟩

/-- A Statement is a protocol object of its kind, without lone surrogates. -/
theorem object_of_parseStatement {a : JsValue} (h : parseStatement a = .ok a) :
    parseProtocolObject a = .ok a ∧ kindForSchema a = some (.statement, statementSchema) ∧
      a.isUnicode = true := by
  have hparse := h
  obtain ⟨_, hdomain, h⟩ := bind_eq_ok_iff.mp h
  obtain ⟨record, hrecord, h⟩ := bind_eq_ok_iff.mp h
  obtain ⟨_, hschema, -⟩ := bind_eq_ok_iff.mp h
  obtain ⟨rfl, -⟩ := closedRecord_eq_ok_iff.mp hrecord
  rw [literal_eq_ok_iff] at hschema
  refine ⟨?_, ?_, isUnicode_of_assertProtocolDomain hdomain⟩
  · have hclosed : closedRecord (.obj record) (js "$") [js "schema"] protocolFields = .ok record :=
      closedRecord_mono hrecord (by decide) (by decide)
    refine bind_eq_ok_iff.mpr ⟨(), hdomain, bind_eq_ok_iff.mpr ⟨record, hclosed, ?_⟩⟩
    rw [if_neg (by rw [hschema]; decide), if_neg (by rw [hschema]; decide), if_pos hschema]
    exact hparse
  · unfold kindForSchema
    dsimp only
    rw [if_neg (by rw [hschema]; decide), if_neg (by rw [hschema]; decide), if_pos hschema]

/-- A kind that is found comes with its schema. -/
theorem schema_of_kindForSchema {a : JsValue} {kind : ObjectKind} {schema : JsString}
    (h : kindForSchema a = some (kind, schema)) : schema = expectedSchema kind := by
  unfold kindForSchema at h
  split at h
  · split_ifs at h <;> obtain ⟨rfl, rfl⟩ := Prod.mk.inj (Option.some.inj h) <;> rfl
  · simp at h

/-- The same values have one kind. -/
theorem kindForSchema_congr {a b : JsValue} (h : JsValue.Same a b) :
    kindForSchema a = kindForSchema b := by
  cases h.cases with
  | leaf _ => rfl
  | num n n' => rfl
  | arr _ => rfl
  | obj hm =>
    unfold kindForSchema
    simp only [if_congr (field_same hm "schema").eq_str_iff rfl rfl]

variable {sha256 : List UInt8 → JsString}

/-- The object bytes are the canonical bytes of an object. -/
theorem canonicalProtocolObjectBytes_eq_ok_iff {a : JsValue} {bytes : List UInt8} :
    canonicalProtocolObjectBytes a = .ok bytes ↔
      parseProtocolObject a = .ok a ∧ canonicalProtocolBytes a = .ok bytes := by
  constructor
  · intro h
    obtain ⟨parsed, hparsed, hbytes⟩ := bind_eq_ok_iff.mp h
    obtain rfl := parseProtocolObject_returns a parsed hparsed
    exact ⟨hparsed, hbytes⟩
  · exact fun h => bind_eq_ok_iff.mpr ⟨a, h⟩

/-- The descriptor of an object: its kind and schema, and the digest of its bytes. -/
theorem describeProtocolObject_eq_ok_iff {a : JsValue} {d : ObjectDescriptor} :
    describeProtocolObject sha256 a = .ok d ↔ ∃ bytes,
      canonicalProtocolObjectBytes a = .ok bytes ∧ kindForSchema a = some (d.kind, d.schema) ∧
        d.digest = js "sha256:" ++ sha256 (digestInput d.kind d.schema bytes) := by
  constructor
  · intro h
    obtain ⟨parsed, hparsed, hrest⟩ := bind_eq_ok_iff.mp h
    obtain rfl := parseProtocolObject_returns a parsed hparsed
    cases hkind : kindForSchema parsed with
    | none =>
      rw [hkind] at hrest
      cases hrest
    | some k =>
      obtain ⟨kind, schema⟩ := k
      rw [hkind] at hrest
      obtain ⟨hash, hhash, hlast⟩ := bind_eq_ok_iff.mp hrest
      obtain rfl := Except.ok.inj hlast
      obtain ⟨again, hagain, hagainHash⟩ := bind_eq_ok_iff.mp hhash
      obtain rfl := parseProtocolObject_returns parsed again hagain
      rw [hkind] at hagainHash
      obtain ⟨bytes, hbytes, hdigest⟩ := bind_eq_ok_iff.mp hagainHash
      rw [digestCanonicalProtocolBytes, if_neg (not_not.mpr (schema_of_kindForSchema hkind).symm)]
        at hdigest
      exact ⟨bytes, hbytes, rfl, (Except.ok.inj hdigest).symm⟩
  · rintro ⟨bytes, hbytes, hkind, hdigest⟩
    have hparse := (canonicalProtocolObjectBytes_eq_ok_iff.mp hbytes).1
    obtain ⟨kind, schema, hash⟩ := d
    simp only at hkind hdigest
    refine bind_eq_ok_iff.mpr ⟨a, hparse, ?_⟩
    simp only [hkind]
    refine bind_eq_ok_iff.mpr ⟨hash, bind_eq_ok_iff.mpr ⟨a, hparse, ?_⟩, rfl⟩
    simp only [hkind]
    refine bind_eq_ok_iff.mpr ⟨bytes, hbytes, ?_⟩
    rw [digestCanonicalProtocolBytes, if_neg (not_not.mpr (schema_of_kindForSchema hkind).symm),
      hdigest]

/-! ## Reading a descriptor back -/

/-- Whether a text is the hexadecimal digits of a hash of 256 bits. -/
def IsHashText (s : JsString) : Prop := s.length = 64 ∧ ∀ u ∈ s, isLowerHex u = true

/-- The digest with a hash text matches its pattern. -/
theorem digestPattern_of_isHashText {s : JsString} (h : IsHashText s) :
    digestPattern (js "sha256:" ++ s) = true := by
  have hlength : (js "sha256:").length = 7 := by decide
  have htake : (js "sha256:" ++ s).take 7 = js "sha256:" := by
    rw [← hlength, List.take_left]
  have hdrop : (js "sha256:" ++ s).drop 7 = s := by
    rw [← hlength, List.drop_left]
  unfold digestPattern
  rw [htake, hdrop]
  simp [h.1, List.all_eq_true.mpr h.2]

/-- A digest with a hash text is well formed. -/
theorem isWellFormed_digest {s : JsString} (h : IsHashText s) :
    isWellFormed (js "sha256:" ++ s) = true := by
  refine isWellFormed_append (by decide) (isWellFormed_of_plain fun u hu => ?_)
  have hhex := h.2 u hu
  have h57 : (57 : UInt16).toNat = 57 := rfl
  have h102 : (102 : UInt16).toNat = 102 := rfl
  have h1 : (0xD800 : UInt16).toNat = 0xD800 := rfl
  have h2 : (0xDC00 : UInt16).toNat = 0xDC00 := rfl
  simp only [isLowerHex, isDigit, isHighSurrogate, isLowSurrogate, Bool.or_eq_true,
    Bool.and_eq_true, Bool.and_eq_false_iff, decide_eq_true_eq, decide_eq_false_iff_not,
    UInt16.le_iff_toNat_le, h57, h102, h1, h2] at hhex ⊢
  omega

/-- A string without bounds that matches its pattern is accepted. -/
theorem stringValue_str {s path : JsString} {pattern : JsString → Bool} (h : pattern s = true) :
    stringValue (.str s) path { pattern := pattern } = .ok s := by
  simp [stringValue, h]

/-- A value without lone surrogates is in the protocol domain. -/
theorem assertProtocolDomain_of_isUnicode {a : JsValue} (h : a.isUnicode = true) :
    assertProtocolDomain a = .ok () := by
  obtain ⟨text, htext⟩ := exists_canonicalJson_iff.mpr h
  rw [assertProtocolDomain, canonicalizeProtocolValue, htext]
  rfl

/-- A descriptor with a hash text has no lone surrogates. -/
theorem isUnicode_descriptor {d : ObjectDescriptor} {s : JsString}
    (hschema : d.schema = expectedSchema d.kind) (hdigest : d.digest = js "sha256:" ++ s)
    (hs : IsHashText s) : d.value.isUnicode = true := by
  obtain ⟨kind, schema, hash⟩ := d
  simp only at hschema hdigest
  subst hschema hdigest
  refine JsValue.isUnicode_obj.mpr fun key v hv => ?_
  have hmem := Record.mem_of_get hv
  simp only [List.mem_cons, List.not_mem_nil, or_false, Prod.mk.injEq] at hmem
  rcases hmem with ⟨rfl, rfl⟩ | ⟨rfl, rfl⟩ | ⟨rfl, rfl⟩
  · exact ⟨by decide, by cases kind <;> decide⟩
  · exact ⟨by decide, by cases kind <;> decide⟩
  · exact ⟨by decide, isWellFormed_digest hs⟩

/-- A descriptor that is written as a value reads back. -/
theorem parseObjectDescriptor_value {d : ObjectDescriptor} {s : JsString}
    (hschema : d.schema = expectedSchema d.kind) (hdigest : d.digest = js "sha256:" ++ s)
    (hs : IsHashText s) {path : JsString} : parseObjectDescriptor d.value path = .ok d := by
  obtain ⟨kind, schema, hash⟩ := d
  simp only at hschema hdigest
  subst hschema hdigest
  have hdomain := assertProtocolDomain_of_isUnicode
    (isUnicode_descriptor (d := ⟨kind, expectedSchema kind, js "sha256:" ++ s⟩) rfl rfl hs)
  have hkind : descriptorSchema kind.text = .ok kind := by
    cases kind <;> decide
  have hpattern := digestPattern_of_isHashText hs
  refine bind_eq_ok_iff.mpr ⟨(), hdomain, ?_⟩
  refine bind_eq_ok_iff.mpr ⟨_, rfl, ?_⟩
  refine bind_eq_ok_iff.mpr ⟨kind.text, stringValue_str rfl, ?_⟩
  refine bind_eq_ok_iff.mpr ⟨kind, hkind, ?_⟩
  refine bind_eq_ok_iff.mpr ⟨(), if_pos rfl, ?_⟩
  exact bind_eq_ok_iff.mpr ⟨_, stringValue_str hpattern, rfl⟩

/-! ## The store -/

/-- The part of a key before the separator and the part after it determine the key. -/
theorem append_zero_inj {s t s' t' : JsString} (hs : (0 : UInt16) ∉ s) (hs' : (0 : UInt16) ∉ s')
    (h : s ++ 0 :: t = s' ++ 0 :: t') : s = s' ∧ t = t' := by
  have hcut := cut_append (t := t) hs
  rw [h, cut_append hs'] at hcut
  obtain ⟨h1, h2⟩ := Prod.mk.inj hcut
  exact ⟨h1.symm, h2.symm⟩

/-- Descriptors of known schemas under one key are equal. -/
theorem descriptorKey_inj {d d' : ObjectDescriptor} (hd : d.schema = expectedSchema d.kind)
    (hd' : d'.schema = expectedSchema d'.kind) (h : descriptorKey d = descriptorKey d') : d = d' := by
  have htext : ∀ kind : ObjectKind, (0 : UInt16) ∉ kind.text := by
    intro kind
    cases kind <;> decide
  have hschema : ∀ kind, (0 : UInt16) ∉ expectedSchema kind := by
    intro kind
    cases kind <;> decide
  have hkinds : ∀ kind kind' : ObjectKind, kind.text = kind'.text → kind = kind' := by
    intro kind kind'
    cases kind <;> cases kind' <;> decide
  obtain ⟨hkind, hrest⟩ := append_zero_inj (htext _) (htext _) h
  rw [hd, hd'] at hrest
  obtain ⟨-, hdigest⟩ := append_zero_inj (hschema _) (hschema _) hrest
  obtain ⟨kind, schema, hash⟩ := d
  obtain ⟨kind', schema', hash'⟩ := d'
  simp only at hkind hdigest hd hd'
  obtain rfl := hkinds _ _ hkind
  subst hdigest hd hd'
  rfl

/-- An object has a descriptor and bytes. -/
def Stored (sha256 : List UInt8 → JsString) (object : JsValue) (d : ObjectDescriptor)
    (bytes : List UInt8) : Prop :=
  describeProtocolObject sha256 object = .ok d ∧ canonicalProtocolObjectBytes object = .ok bytes

/-- Putting an object that is described stores its bytes under its key. -/
theorem putObject_eq_ok_iff {store store' : Record (List UInt8)} {object : JsValue}
    {d : ObjectDescriptor} : putObject sha256 store object = .ok (d, store') ↔
      ∃ bytes, Stored sha256 object d bytes ∧
        store' = Record.mapSet store (descriptorKey d) bytes := by
  constructor
  · intro h
    obtain ⟨d', hd', h⟩ := bind_eq_ok_iff.mp h
    obtain ⟨bytes, hbytes, h⟩ := bind_eq_ok_iff.mp h
    obtain ⟨rfl, rfl⟩ := Prod.mk.inj (Except.ok.inj h)
    exact ⟨bytes, ⟨hd', hbytes⟩, rfl⟩
  · rintro ⟨bytes, ⟨hd, hbytes⟩, rfl⟩
    exact bind_eq_ok_iff.mpr ⟨d, hd, bind_eq_ok_iff.mpr ⟨bytes, hbytes, rfl⟩⟩

/-- What the store holds after objects have been put: bytes that it held before or those
of an object under its key, and some bytes for every object. -/
structure HoldsObjects (sha256 : List UInt8 → JsString) (store : Record (List UInt8))
    (objects : List JsValue) (after : Record (List UInt8)) : Prop where
  /-- Bytes that are held were held before or are those of an object. -/
  origin : ∀ key bytes, Record.get after key = some bytes → Record.get store key = some bytes ∨
    ∃ object ∈ objects, ∃ d, Stored sha256 object d bytes ∧ descriptorKey d = key
  /-- A key that was held is held. -/
  kept : ∀ key, Record.has store key = true → Record.has after key = true
  /-- The key of every object is held. -/
  held : ∀ object ∈ objects, ∀ d bytes, Stored sha256 object d bytes →
    Record.has after (descriptorKey d) = true

/-- Putting one object keeps what the store holds. -/
theorem holdsObjects_put (store : Record (List UInt8)) (object : JsValue) :
    HoldsObjects sha256 store [object] (storeAfter sha256 store object) := by
  unfold storeAfter
  cases hput : putObject sha256 store object with
  | error e =>
    refine ⟨fun _ _ h => .inl h, fun _ h => h, fun o ho d bytes hstored => ?_⟩
    obtain rfl := List.mem_singleton.mp ho
    rw [putObject_eq_ok_iff.mpr ⟨bytes, hstored, rfl⟩] at hput
    cases hput
  | ok r =>
    obtain ⟨d, store'⟩ := r
    obtain ⟨bytes, hstored, rfl⟩ := putObject_eq_ok_iff.mp hput
    refine ⟨fun key b h => ?_, fun key h => ?_, fun o ho d' bytes' hstored' => ?_⟩
    · simp only [Record.get_mapSet] at h
      split_ifs at h with hkey
      · obtain rfl := Option.some.inj h
        exact .inr ⟨object, List.mem_singleton_self _, d, hstored, hkey.symm⟩
      · exact .inl h
    · simp only [Record.has, Record.get_mapSet] at h ⊢
      split_ifs
      · rfl
      · exact h
    · obtain rfl := List.mem_singleton.mp ho
      obtain rfl := Except.ok.inj (hstored'.1.symm.trans hstored.1)
      simp [Record.has]

/-- Putting objects in turn keeps what the store holds. -/
theorem holdsObjects (store : Record (List UInt8)) (objects : List JsValue) :
    HoldsObjects sha256 store objects (putObjects sha256 store objects) := by
  induction objects generalizing store with
  | nil => exact ⟨fun _ _ h => .inl h, fun _ h => h, fun _ h => absurd h List.not_mem_nil⟩
  | cons object objects ih =>
    have hone : HoldsObjects sha256 store [object] _ := holdsObjects_put store object
    unfold putObjects at ih ⊢
    rw [List.foldl_cons]
    have hrest := ih (storeAfter sha256 store object)
    refine ⟨fun key bytes h => ?_, fun key h => hrest.kept key (hone.kept key h),
      fun o ho d bytes hstored => ?_⟩
    · rcases hrest.origin key bytes h with h | ⟨o, ho, d, hd⟩
      · rcases hone.origin key bytes h with h | ⟨o, ho, d, hd⟩
        · exact .inl h
        · obtain rfl := List.mem_singleton.mp ho
          exact .inr ⟨o, List.mem_cons_self, d, hd⟩
      · exact .inr ⟨o, List.mem_cons_of_mem _ ho, d, hd⟩
    · rcases List.mem_cons.mp ho with rfl | ho
      · exact hrest.kept _ (hone.held o (List.mem_singleton_self _) d bytes hstored)
      · exact hrest.held o ho d bytes hstored

/-- The inputs that are hashed for objects have different hashes when they differ. -/
def CollisionFree (sha256 : List UInt8 → JsString) (objects : List JsValue) : Prop :=
  ∀ o ∈ objects, ∀ o' ∈ objects, ∀ d d' bytes bytes', Stored sha256 o d bytes →
    Stored sha256 o' d' bytes' →
    sha256 (digestInput d.kind d.schema bytes) = sha256 (digestInput d'.kind d'.schema bytes') →
    digestInput d.kind d.schema bytes = digestInput d'.kind d'.schema bytes'

/-- The schema and the digest of an object that is described. -/
theorem describe_schema {object : JsValue} {d : ObjectDescriptor} {bytes : List UInt8}
    (h : Stored sha256 object d bytes) : d.schema = expectedSchema d.kind ∧
      d.digest = js "sha256:" ++ sha256 (digestInput d.kind d.schema bytes) := by
  obtain ⟨bytes', hbytes', hkind, hdigest⟩ := describeProtocolObject_eq_ok_iff.mp h.1
  obtain rfl := Except.ok.inj (hbytes'.symm.trans h.2)
  exact ⟨schema_of_kindForSchema hkind, hdigest⟩

/-- Without collisions the store holds the bytes of every object under its key. -/
theorem getObject_putObjects {objects : List JsValue} (hfree : CollisionFree sha256 objects)
    {object : JsValue} (hmem : object ∈ objects) {d : ObjectDescriptor} {bytes : List UInt8}
    (h : Stored sha256 object d bytes) :
    getObject (putObjects sha256 [] objects) d = some bytes := by
  have hholds : HoldsObjects sha256 [] objects _ := holdsObjects [] objects
  obtain ⟨found, hfound⟩ := Record.has_eq_true.mp (hholds.held object hmem d bytes h)
  rcases hholds.origin _ _ hfound with hold | ⟨o, ho, d', hstored, hkey⟩
  · simp [Record.get] at hold
  · obtain ⟨hschema, hdigest⟩ := describe_schema h
    obtain ⟨hschema', hdigest'⟩ := describe_schema hstored
    obtain rfl := descriptorKey_inj hschema' hschema hkey
    have hhash := List.append_cancel_left (hdigest'.symm.trans hdigest)
    have hinput := hfree o ho object hmem d' d' found bytes hstored h hhash
    have hbytes : found = bytes := List.append_cancel_left hinput
    rw [getObject, hfound, hbytes]

/-! ## Resolving -/

/-- What a request resolves to: the object with the canonical bytes that the resolver returned
for the descriptor, which is the one that was requested. -/
theorem resolveProtocolObject_eq_ok_iff {resolver : ObjectResolver} {requested object : JsValue} :
    resolveProtocolObject sha256 resolver requested = .ok object ↔ ∃ d bytes,
      parseObjectDescriptor requested (js "$") = .ok d ∧ resolver d = some bytes ∧
        Stored sha256 object d bytes ∧ parseProtocolBytes bytes = .ok object := by
  constructor
  · intro h
    obtain ⟨d, hd, h⟩ := bind_eq_ok_iff.mp h
    cases hget : resolver d with
    | none =>
      rw [hget] at h
      cases h
    | some bytes =>
      rw [hget] at h
      obtain ⟨resolvedDigest, -, h⟩ := bind_eq_ok_iff.mp h
      obtain ⟨-, h⟩ := refuse_eq_ok_iff.mp h
      obtain ⟨parsed, hparsed, h⟩ := bind_eq_ok_iff.mp h
      obtain ⟨actual, hactual, h⟩ := bind_eq_ok_iff.mp h
      obtain ⟨hkind, h⟩ := refuse_eq_ok_iff.mp h
      obtain ⟨hsame, h⟩ := refuse_eq_ok_iff.mp h
      obtain ⟨canonical, hcanonical, h⟩ := bind_eq_ok_iff.mp h
      obtain ⟨hbytes, h⟩ := refuse_eq_ok_iff.mp h
      obtain rfl := Except.ok.inj h
      obtain rfl := not_not.mp hbytes
      refine ⟨d, bytes, hd, hget, ⟨?_, hcanonical⟩, hparsed⟩
      obtain ⟨kind, schema, hash⟩ := actual
      obtain ⟨kind', schema', hash'⟩ := d
      simp only [ne_eq, not_not, not_or] at hkind hsame
      rw [hactual, hkind.1, hkind.2, hsame]
  · rintro ⟨d, bytes, hd, hget, hstored, hparsed⟩
    obtain ⟨hschema, hdigest⟩ := describe_schema hstored
    refine bind_eq_ok_iff.mpr ⟨d, hd, ?_⟩
    rw [hget]
    refine bind_eq_ok_iff.mpr ⟨d.digest, ?_, ?_⟩
    · rw [digestCanonicalProtocolBytes, if_neg (not_not.mpr hschema.symm), hdigest]
    · rw [if_neg (not_not.mpr rfl)]
      refine bind_eq_ok_iff.mpr ⟨object, hparsed, bind_eq_ok_iff.mpr ⟨d, hstored.1, ?_⟩⟩
      rw [if_neg (by simp), if_neg (not_not.mpr rfl)]
      refine bind_eq_ok_iff.mpr ⟨bytes, hstored.2, ?_⟩
      rw [if_neg (not_not.mpr rfl)]
      rfl

/-- An object resolves from its descriptor when the resolver returns its bytes. -/
theorem resolveProtocolObject_of_stored (hhash : ∀ input, IsHashText (sha256 input))
    {resolver : ObjectResolver} {object : JsValue} {d : ObjectDescriptor} {bytes : List UInt8}
    (h : Stored sha256 object d bytes) (hget : resolver d = some bytes) :
    ∃ back, resolveProtocolObject sha256 resolver d.value = .ok back ∧
      canonicalProtocolObjectBytes back = .ok bytes := by
  obtain ⟨hschema, hdigest⟩ := describe_schema h
  obtain ⟨hparse, hcanonical⟩ := canonicalProtocolObjectBytes_eq_ok_iff.mp h.2
  obtain ⟨text, htext, rfl⟩ := canonicalProtocolBytes_eq_ok_iff.mp hcanonical
  obtain ⟨back, hback, hdenote⟩ := parse_canonical htext
  have hsame : JsValue.Same object back := hdenote.symm
  obtain ⟨back', hparse', -⟩ := (parseProtocolObject_agree hsame).of_ok hparse
  obtain rfl := parseProtocolObject_returns back back' hparse'
  have hbytes : canonicalProtocolObjectBytes back' = .ok (encodeUtf8 text) :=
    canonicalProtocolObjectBytes_eq_ok_iff.mpr ⟨hparse', canonicalProtocolBytes_eq_ok_iff.mpr
      ⟨text, canonicalizeProtocolValue_congr hsame htext, rfl⟩⟩
  have hdescribe : describeProtocolObject sha256 back' = .ok d := by
    obtain ⟨bytes', hbytes', hkind, hdigest'⟩ := describeProtocolObject_eq_ok_iff.mp h.1
    obtain rfl := Except.ok.inj (hbytes'.symm.trans h.2)
    exact describeProtocolObject_eq_ok_iff.mpr
      ⟨_, hbytes, (kindForSchema_congr hsame).symm.trans hkind, hdigest'⟩
  refine ⟨back', resolveProtocolObject_eq_ok_iff.mpr ⟨d, _, parseObjectDescriptor_value hschema
    hdigest (hhash _), hget, ⟨hdescribe, hbytes⟩, ?_⟩, hbytes⟩
  exact bind_eq_ok_iff.mpr ⟨back', (parse_encodeUtf8 htext).trans hback, hparse'⟩

/-- What the store and a resolver promise. -/
structure Faithful (sha256 : List UInt8 → JsString) : Prop where
  /-- After any puts without collisions every object resolves from its descriptor to an
  object with its bytes. -/
  stored : ∀ objects, CollisionFree sha256 objects → ∀ object ∈ objects, ∀ d,
    describeProtocolObject sha256 object = .ok d → ∃ back,
      resolveProtocolObject sha256 (getObject (putObjects sha256 [] objects)) d.value = .ok back ∧
      canonicalProtocolObjectBytes back = canonicalProtocolObjectBytes object
  /-- What any resolver makes of a descriptor has the returned bytes and the descriptor. -/
  resolved : ∀ resolver requested object,
    resolveProtocolObject sha256 resolver requested = .ok object → ∃ d bytes,
      parseObjectDescriptor requested (js "$") = .ok d ∧ resolver d = some bytes ∧
        canonicalProtocolObjectBytes object = .ok bytes ∧
        describeProtocolObject sha256 object = .ok d

/-- The store of objects is faithful, for any hash that gives hexadecimal digits. -/
theorem resolver_faithful (hhash : ∀ input, IsHashText (sha256 input)) : Faithful sha256 := by
  refine ⟨fun objects hfree object hmem d hd => ?_, fun resolver requested object h => ?_⟩
  · obtain ⟨bytes, hbytes, -⟩ := describeProtocolObject_eq_ok_iff.mp hd
    obtain ⟨back, hback, hsame⟩ := resolveProtocolObject_of_stored hhash ⟨hd, hbytes⟩
      (getObject_putObjects hfree hmem ⟨hd, hbytes⟩)
    exact ⟨back, hback, hsame.trans hbytes.symm⟩
  · obtain ⟨d, bytes, hd, hget, hstored, -⟩ := resolveProtocolObject_eq_ok_iff.mp h
    exact ⟨d, bytes, hd, hget, hstored.2, hstored.1⟩

/-- The empty State of a codec. -/
def emptyState : JsValue :=
  .obj [(js "schema", .str stateSchema), (js "codec", .obj [(js "mediaType",
    .str (js "application/json")), (js "version", .str (js "1"))]), (js "value", .obj [])]

/-- The hexadecimal digits of the hash of the empty State. -/
def emptyStateHash : JsString :=
  js "08536e66a159963284e93671e8108986cd5c55a81d39a0e7e6dc6d41ec8f30c2"

/-- The empty State is a State. -/
theorem parse_emptyState : parseProtocolObject emptyState = .ok emptyState := by
  have hdomain : assertProtocolDomain emptyState = .ok () :=
    assertProtocolDomain_of_isUnicode (by decide)
  have hempty : assertProtocolDomain (.obj []) = .ok () :=
    assertProtocolDomain_of_isUnicode (by decide)
  have hcodec : stateCodecRef (.obj [(js "mediaType", .str (js "application/json")),
      (js "version", .str (js "1"))]) (js "$.codec") = .ok () := by decide
  refine bind_eq_ok_iff.mpr ⟨(), hdomain, bind_eq_ok_iff.mpr ⟨_, rfl, ?_⟩⟩
  refine (if_pos rfl).trans ?_
  refine bind_eq_ok_iff.mpr ⟨(), hdomain, bind_eq_ok_iff.mpr ⟨_, rfl, ?_⟩⟩
  exact bind_eq_ok_iff.mpr ⟨(), if_pos rfl, bind_eq_ok_iff.mpr ⟨(), hcodec,
    bind_eq_ok_iff.mpr ⟨(), hempty, rfl⟩⟩⟩

/-- The store of the empty State, with the hash that it has. -/
theorem resolver_faithful_of_emptyState : ∃ back,
    resolveProtocolObject (fun _ => emptyStateHash)
      (getObject (putObjects (fun _ => emptyStateHash) [] [emptyState]))
      (ObjectDescriptor.value ⟨.state, stateSchema, js "sha256:" ++ emptyStateHash⟩) = .ok back ∧
    canonicalProtocolObjectBytes back = canonicalProtocolObjectBytes emptyState := by
  obtain ⟨text, htext⟩ := exists_canonicalJson_iff.mpr (by decide : emptyState.isUnicode = true)
  have hbytes : canonicalProtocolObjectBytes emptyState = .ok (encodeUtf8 text) :=
    canonicalProtocolObjectBytes_eq_ok_iff.mpr ⟨parse_emptyState,
      canonicalProtocolBytes_eq_ok_iff.mpr ⟨text, htext, rfl⟩⟩
  have hfaithful : Faithful fun _ => emptyStateHash :=
    resolver_faithful fun _ => ⟨by decide, List.all_eq_true.mp (by decide)⟩
  refine hfaithful.stored [emptyState] ?_ emptyState List.mem_cons_self _
    (describeProtocolObject_eq_ok_iff.mpr ⟨_, hbytes, by decide, rfl⟩)
  intro o ho o' ho' d d' bytes bytes' h h' _
  obtain rfl := List.mem_singleton.mp ho
  obtain rfl := List.mem_singleton.mp ho'
  rw [Except.ok.inj (h.1.symm.trans h'.1), Except.ok.inj (h.2.symm.trans h'.2)]

end T3x.Transition
