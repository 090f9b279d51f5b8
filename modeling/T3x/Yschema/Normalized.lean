import T3x.Yschema.Normalize

/-!
# What the reading of members keeps

The members of a mapping are read one by one, each under a machine-safe key, so the
keys of what is read are those of the mapping, without repetition, and every member
is read of the value under its key.
-/

namespace T3x.Yschema

open Js

variable {V W : Type} {raw : Record V} {keyContext context : JsString}
  {read : V → JsString → Except JsString W} {members : Record W}

/-- A key is accepted exactly when it is machine-safe. -/
theorem assertKey_eq_ok_iff {key context : JsString} {u : Unit} :
    assertKey key context = .ok u ↔ isKey key = true := by
  unfold assertKey invalidSchema
  split_ifs with h <;> simp [h]

/-- A path is accepted exactly when its segments are machine-safe keys. -/
theorem assertPath_eq_ok_iff {path context : JsString} {u : Unit} :
    assertPath path context = .ok u ↔ isPath path = true := by
  unfold assertPath invalidSchema
  split_ifs with h <;> simp [h]

/-- The members are read exactly when each of them is, under a machine-safe key. -/
theorem normalizeMembers_eq_ok_iff :
    normalizeMembers raw keyContext context read = .ok members ↔
      List.Forall₂ (fun e e' => isKey e.1 = true ∧ e'.1 = e.1 ∧
        read e.2 (context ++ unit '.' :: e.1) = .ok e'.2) (Record.entries raw) members := by
  unfold normalizeMembers
  rw [mapM_eq_ok_iff]
  have hentry : ∀ (e : JsString × V) (e' : JsString × W),
      (do
        assertKey e.1 keyContext
        let value ← read e.2 (context ++ unit '.' :: e.1)
        return (e.1, value) : Except JsString (JsString × W)) = .ok e' ↔
        isKey e.1 = true ∧ e'.1 = e.1 ∧ read e.2 (context ++ unit '.' :: e.1) = .ok e'.2 := by
    intro e e'
    rw [bind_eq_ok_iff]
    simp only [assertKey_eq_ok_iff, bind_eq_ok_iff, exists_const]
    refine and_congr_right fun _ => ?_
    constructor
    · rintro ⟨value, hvalue, h⟩
      obtain rfl := Except.ok.inj h
      exact ⟨rfl, hvalue⟩
    · rintro ⟨hkey, hvalue⟩
      exact ⟨e'.2, hvalue, congrArg Except.ok (Prod.ext hkey.symm rfl)⟩
  simp only [hentry]

/-- Every item of the second of two related lists has a partner in the first. -/
theorem exists_of_mem_right {S T : Type} {R : S → T → Prop} {xs : List S} {ys : List T}
    (h : List.Forall₂ R xs ys) {y : T} (hy : y ∈ ys) : ∃ x ∈ xs, R x y := by
  induction h with
  | nil => exact absurd hy List.not_mem_nil
  | cons hxy _ ih =>
    rcases List.mem_cons.mp hy with rfl | hy
    · exact ⟨_, List.mem_cons_self, hxy⟩
    · obtain ⟨x, hx, hxy⟩ := ih hy
      exact ⟨x, List.mem_cons_of_mem _ hx, hxy⟩

/-- The keys of what is read are those of the mapping. -/
theorem keys_of_normalizeMembers (h : normalizeMembers raw keyContext context read = .ok members) :
    members.map Prod.fst = Record.keys raw := by
  have hall := normalizeMembers_eq_ok_iff.mp h
  unfold Record.keys
  generalize Record.entries raw = entries at hall ⊢
  clear h
  induction hall with
  | nil => rfl
  | cons he _ ih => rw [List.map_cons, List.map_cons, he.2.1, ih]

/-- No key is read twice. -/
theorem nodup_of_normalizeMembers (h : normalizeMembers raw keyContext context read = .ok members) :
    (members.map Prod.fst).Nodup :=
  keys_of_normalizeMembers h ▸ Record.keys_nodup raw

/-- Every key that is read is machine-safe. -/
theorem isKey_of_normalizeMembers (h : normalizeMembers raw keyContext context read = .ok members)
    {e : JsString × W} (he : e ∈ members) : isKey e.1 = true := by
  obtain ⟨e', -, hkey, heq, -⟩ := exists_of_mem_right (normalizeMembers_eq_ok_iff.mp h) he
  rw [heq]
  exact hkey

/-- What is read under a key is read of the value under it. -/
theorem get_of_normalizeMembers (h : normalizeMembers raw keyContext context read = .ok members)
    {key : JsString} {w : W} (hw : Record.get members key = some w) :
    ∃ v, Record.get raw key = some v ∧ read v (context ++ unit '.' :: key) = .ok w := by
  obtain ⟨⟨key', v⟩, hmem, -, heq, hread⟩ :=
    exists_of_mem_right (normalizeMembers_eq_ok_iff.mp h) (Record.mem_of_get hw)
  obtain rfl : key = key' := heq
  exact ⟨v, Record.mem_entries.mp hmem, hread⟩

/-- The value under a key is read. -/
theorem exists_get_of_normalizeMembers
    (h : normalizeMembers raw keyContext context read = .ok members)
    {key : JsString} {v : V} (hv : Record.get raw key = some v) :
    ∃ w, Record.get members key = some w ∧ read v (context ++ unit '.' :: key) = .ok w := by
  have hhas : Record.has members key = true := by
    rw [← Record.mem_keys, Record.keys, Record.entries_of_nodup (nodup_of_normalizeMembers h),
      keys_of_normalizeMembers h, Record.mem_keys, Record.has, hv]
    rfl
  obtain ⟨w, hw⟩ := Record.has_eq_true.mp hhas
  obtain ⟨v', hv', hread⟩ := get_of_normalizeMembers h hw
  obtain rfl := Option.some.inj (hv.symm.trans hv')
  exact ⟨w, hw, hread⟩

/-- The keys that are read as a list are machine-safe. -/
theorem isKey_of_asKeyArray {value : Option JsValue} {context : JsString}
    {keys : Option (List JsString)} (h : asKeyArray value context = .ok keys) :
    ∀ key ∈ keys.getD [], isKey key = true := by
  unfold asKeyArray at h
  split at h
  · obtain rfl := Except.ok.inj h
    exact fun key hkey => absurd hkey List.not_mem_nil
  · next items =>
    obtain ⟨read, hread, h⟩ := bind_eq_ok_iff.mp h
    obtain rfl := Except.ok.inj h
    intro key hkey
    obtain ⟨⟨item, index⟩, -, hitem⟩ := exists_of_mem_right (mapM_eq_ok_iff.mp hread) hkey
    dsimp only at hitem
    split at hitem
    · obtain ⟨⟨⟩, hassert, hitem⟩ := bind_eq_ok_iff.mp hitem
      exact Except.ok.inj hitem ▸ assertKey_eq_ok_iff.mp hassert
    · cases hitem
  · cases h

/-! ## Endpoints -/

/-- An endpoint is accepted exactly when it is a path, or one that ends in `/*`, to a node that
is repeated if it has to be. -/
theorem checkEndpoint_eq_ok_iff {nodes : Record NodeSchema} {pattern context : JsString}
    {u : Unit} :
    checkEndpoint nodes pattern context = .ok u ↔
      ¬ (unit '*' ∈ pattern ∧ endsInStar pattern = false) ∧ isPath (patternPath pattern) = true ∧
        ∃ node, resolveNodePath nodes (patternPath pattern) = .ok (some node) ∧
          ¬ (endsInStar pattern = true ∧
            node.bind (fun node => node.head.repeated) ≠ some true) := by
  unfold checkEndpoint
  rw [invalidSchema_eq_ok_iff, bind_eq_ok_iff]
  simp only [assertPath_eq_ok_iff, exists_const]
  refine and_congr_right fun _ => and_congr_right fun _ => ?_
  rw [bind_eq_ok_iff]
  constructor
  · rintro ⟨resolved, hresolved, h⟩
    cases resolved with
    | none => cases h
    | some node =>
      refine ⟨node, hresolved, fun hboth => ?_⟩
      simp only [if_pos hboth] at h
      cases h
  · rintro ⟨node, hresolved, hnot⟩
    refine ⟨some node, hresolved, ?_⟩
    simp only [if_neg hnot]
    rfl

/-- An endpoint of a relation type that is read has been checked. -/
theorem checkEndpoint_of_normalizeRelationType {nodes : Record NodeSchema} {value : JsValue}
    {context : JsString} {typeSchema : RelationTypeSchema}
    (h : normalizeRelationType nodes value context = .ok typeSchema) :
    checkEndpoint nodes typeSchema.from (context ++ js ".from") = .ok () ∧
      checkEndpoint nodes typeSchema.to (context ++ js ".to") = .ok () := by
  unfold normalizeRelationType at h
  obtain ⟨raw, -, h⟩ := bind_eq_ok_iff.mp h
  obtain ⟨⟨⟩, -, h⟩ := bind_eq_ok_iff.mp h
  obtain ⟨⟨⟩, -, h⟩ := bind_eq_ok_iff.mp h
  obtain ⟨«from», -, h⟩ := bind_eq_ok_iff.mp h
  obtain ⟨«to», -, h⟩ := bind_eq_ok_iff.mp h
  obtain ⟨⟨⟩, hfrom, h⟩ := bind_eq_ok_iff.mp h
  obtain ⟨⟨⟩, hto, h⟩ := bind_eq_ok_iff.mp h
  obtain ⟨description, -, h⟩ := bind_eq_ok_iff.mp h
  obtain ⟨rawGuidance, -, h⟩ := bind_eq_ok_iff.mp h
  obtain ⟨guidance, -, h⟩ := bind_eq_ok_iff.mp h
  obtain ⟨acyclic, -, h⟩ := bind_eq_ok_iff.mp h
  obtain rfl := Except.ok.inj h
  exact ⟨hfrom, hto⟩

/-! ## Schemas that are read -/

/-- The schema is read of some value. -/
def YSchema.IsNormalized (regExpError : JsString → Option JsString) (schema : YSchema) : Prop :=
  ∃ rawInput, normalizeYSchemaObject regExpError rawInput = .ok schema

/-- Reading the relation types is reading each of them. -/
theorem normalizeRelationTypes_eq_ok_iff {value : Option JsValue} {nodes : Record NodeSchema}
    {types : Option (Record RelationTypeSchema)} :
    normalizeRelationTypes value nodes = .ok types ↔
      (value = none ∧ types = none) ∨ ∃ raw declared, value = some (.obj raw) ∧
        types = some declared ∧ normalizeMembers raw (js "relationTypes") (js "relationTypes")
          (normalizeRelationType nodes) = .ok declared := by
  unfold normalizeRelationTypes
  match value with
  | none => simp [eq_comm]
  | some (.obj raw) =>
    simp only [asRecord, bind_eq_ok_iff, reduceCtorEq, false_and, false_or, Option.some.injEq,
      JsValue.obj.injEq, Except.ok.injEq, exists_eq_left', exists_and_left]
    refine exists_congr fun declared => ?_
    rw [and_comm]
    exact and_congr_left fun _ => ⟨fun h => (Except.ok.inj h).symm, fun h => h ▸ rfl⟩
  | some .null | some (.bool _) | some (.num _) | some (.str _) | some (.arr _) =>
    simp [asRecord, invalidSchema, bind_eq_ok_iff]

/-- Every declared relation type has a machine-safe key. -/
theorem YSchema.IsNormalized.isKey_relationType {regExpError : JsString → Option JsString}
    {schema : YSchema} (h : schema.IsNormalized regExpError) {type : JsString}
    {typeSchema : RelationTypeSchema}
    (hget : Record.get (schema.relationTypes.getD []) type = some typeSchema) :
    isKey type = true := by
  obtain ⟨rawInput, h⟩ := h
  obtain ⟨raw, -, hdescribes⟩ := normalizeYSchemaObject_eq_ok_iff.mp h
  obtain ⟨rawTypes, -, htypes⟩ := hdescribes.relationTypes
  rcases normalizeRelationTypes_eq_ok_iff.mp htypes with ⟨-, hnone⟩ | ⟨rawMembers, declared, -, hsome,
    hmembers⟩
  · rw [hnone] at hget
    cases hget
  · rw [hsome] at hget
    exact isKey_of_normalizeMembers hmembers (Record.mem_of_get hget)

end T3x.Yschema
