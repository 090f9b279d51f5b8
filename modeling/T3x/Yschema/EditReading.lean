import T3x.Yschema.EditCommands
import T3x.Yschema.Reread

/-!
# Reading an edited schema

The value of a slot, a node, a relation type or a rule is read as nothing else than what it
is the value of, if it is read at all. So where one member of a value is another one, what is
read is what was there but for that member.
-/

namespace T3x.Yschema

open Js

variable {regExpError : JsString → Option JsString}

/-! ## Fields -/

/-- A field that has no second name there is read under its first one. -/
theorem ReadsField.eq_ok {T : Type} {raw : Record JsValue} {camel snake : String}
    {read : Option JsValue → Except JsString T} {t : T} (h : ReadsField raw camel snake read t)
    (hsnake : Record.get raw (js snake) = none) : read (Record.get raw (js camel)) = .ok t := by
  obtain ⟨value, hvalue, hread⟩ := h
  unfold getField at hvalue
  rw [hsnake] at hvalue
  cases hcamel : Record.get raw (js camel) with
  | none =>
    simp only [hcamel] at hvalue
    exact Except.ok.inj hvalue ▸ hread
  | some v =>
    simp only [hcamel] at hvalue
    exact Except.ok.inj hvalue ▸ hread

/-- What is read of an encoded value is nothing else. -/
theorem eq_of_ok {T E : Type} {x : Except E T} {t t' : T} (h : x = .ok t) (h' : x = .ok t') :
    t = t' := Except.ok.inj (h.symm.trans h')

/-- A count is read as itself. -/
theorem eq_of_asOptionalCount_map {least : ℕ} {n read : Option JsNumber} {context : JsString}
    (h : asOptionalCount least (n.map .num) context = .ok read) : read = n := by
  unfold asOptionalCount at h
  obtain ⟨m, hm, hread⟩ := bind_eq_ok_iff.mp h
  rw [← eq_of_ok hm (asOptionalNumber_map n context)]
  by_cases hcount : (m.all fun n => isInteger n && decide ((least : ℚ) ≤ n.toRat)) = true
  · rw [if_pos hcount] at hread
    exact (Except.ok.inj hread).symm
  · rw [if_neg hcount] at hread
    cases hread

/-- Keys are read as themselves. -/
theorem eq_of_asKeyArray_map {names read : Option (List JsString)} {context : JsString}
    (h : asKeyArray (names.map textsValue) context = .ok read) : read = names := by
  cases names with
  | none => exact (Except.ok.inj h).symm
  | some names =>
    obtain ⟨keys, hkeys, hread⟩ := bind_eq_ok_iff.mp h
    have hall := mapM_eq_ok_iff.mp hkeys
    generalize 0 = start at hall
    rw [← Except.ok.inj hread]
    refine congrArg some ?_
    clear hkeys hread h
    induction names generalizing start keys with
    | nil =>
      cases hall
      rfl
    | cons name names ih =>
      rw [List.map_cons, List.zipIdx_cons] at hall
      obtain ⟨key, keys, hkey, hrest, rfl⟩ := List.forall₂_cons_left_iff.mp hall
      obtain ⟨-, -, hkey⟩ := bind_eq_ok_iff.mp hkey
      rw [ih _ _ hrest, ← Except.ok.inj hkey]

/-- A hint is read as itself. -/
theorem eq_of_normalizeYOpsHint_map {hint read : Option YOpsHint} {context : JsString}
    (h : normalizeYOpsHint (hint.map YOpsHint.value) context = .ok read) : read = hint := by
  cases hint with
  | none => exact (Except.ok.inj h).symm
  | some hint =>
    obtain ⟨raw, described, hraw, rfl, h⟩ := normalizeYOpsHint_eq_ok_iff.mp h
    obtain rfl := JsValue.obj.inj hraw
    have hget := get_present hint.nodup_fields
    have hsnake : Record.get (present hint.fields) (js "preferred_op") = none :=
      get_present_of_not_mem (by
        change js "preferred_op" ∉ ["preferredOp", "path", "slot"].map js
        decide)
    have hop := h.preferredOp.eq_ok hsnake
    have hpath := h.path
    have hslot := h.slot
    rw [hget "preferredOp" (hint.preferredOp.map .str) (by simp [YOpsHint.fields])] at hop
    rw [hget "path" (hint.path.map .str) (by simp [YOpsHint.fields])] at hpath
    rw [hget "slot" (hint.slot.map .str) (by simp [YOpsHint.fields])] at hslot
    have hpreferred : described.preferredOp = hint.preferredOp := by
      cases hprefers : hint.preferredOp with
      | none =>
        rw [hprefers] at hop
        exact (Except.ok.inj hop).symm
      | some op =>
        rw [hprefers] at hop
        simp only [Option.map_some, asPreferredOp] at hop
        split_ifs at hop
        · exact (Except.ok.inj hop).symm
        · cases hop
    obtain ⟨preferredOp, path, slot⟩ := described
    obtain rfl : preferredOp = _ := hpreferred
    obtain rfl : path = _ := eq_of_ok hpath (asOptionalString_map _ _)
    obtain rfl : slot = _ := eq_of_ok hslot (asOptionalString_map _ _)
    rfl

/-! ## Slots -/

/-- A slot is read as itself. -/
theorem eq_of_normalizeSlot_value {slot read : SlotSchema} {context : JsString}
    (h : normalizeSlot regExpError slot.value context = .ok read) : read = slot := by
  rw [SlotSchema.value, normalizeSlot_obj, normalizeSlotRecord_eq_ok_iff] at h
  have hget := get_present slot.nodup_fields
  have hreads : ∀ {T : Type} (camel snake : String) (value : Option JsValue)
      {reader : Option JsValue → Except JsString T} {t : T}, (camel, value) ∈ slot.fields →
        js snake ∉ slotNames.map js →
          ReadsField (present slot.fields) camel snake reader t → reader value = .ok t := by
    intro T camel snake value reader t hmem hsnake hfield
    have hread := hfield.eq_ok (get_present_of_not_mem hsnake)
    rwa [hget camel value hmem] at hread
  have htype := h.type
  have hconst := h.const
  have hdefault := h.default
  have henum := h.enum
  have hexamples := h.examples
  have hdescription := h.description
  have hminimum := h.minimum
  have hmaximum := h.maximum
  have hpattern := h.pattern
  have hformat := h.format
  rw [hget "type" (slot.type.map fun type => .str type.text) (by simp [SlotSchema.fields])] at htype
  rw [hget "const" slot.const (by simp [SlotSchema.fields])] at hconst
  rw [hget "default" slot.default (by simp [SlotSchema.fields])] at hdefault
  rw [hget "enum" (slot.enum.map .arr) (by simp [SlotSchema.fields])] at henum
  rw [hget "examples" (slot.examples.map .arr) (by simp [SlotSchema.fields])] at hexamples
  rw [hget "description" (slot.description.map .str) (by simp [SlotSchema.fields])] at hdescription
  rw [hget "minimum" (slot.minimum.map .num) (by simp [SlotSchema.fields])] at hminimum
  rw [hget "maximum" (slot.maximum.map .num) (by simp [SlotSchema.fields])] at hmaximum
  rw [hget "pattern" (slot.pattern.map .str) (by simp [SlotSchema.fields])] at hpattern
  rw [hget "format" (slot.format.map .str) (by simp [SlotSchema.fields])] at hformat
  have hguidance := hreads _ _ (slot.contentGuidance.map .str) (by simp [SlotSchema.fields])
    (by decide) h.contentGuidance
  have hquestion := hreads _ _ (slot.gapQuestion.map .str) (by simp [SlotSchema.fields])
    (by decide) h.gapQuestion
  have hkind := hreads _ _ (slot.contentKind.map fun kind => .str kind.text)
    (by simp [SlotSchema.fields]) (by decide) h.contentKind
  have hminLength := hreads _ _ (slot.minLength.map .num) (by simp [SlotSchema.fields])
    (by decide) h.minLength
  have hmaxLength := hreads _ _ (slot.maxLength.map .num) (by simp [SlotSchema.fields])
    (by decide) h.maxLength
  have hmaxWords := hreads _ _ (slot.maxWords.map .num) (by simp [SlotSchema.fields])
    (by decide) h.maxWords
  have hprovenance := hreads _ _ (slot.provenanceRequired.map .bool) (by simp [SlotSchema.fields])
    (by decide) h.provenanceRequired
  have hhint := hreads _ _ (slot.yopsHint.map YOpsHint.value) (by simp [SlotSchema.fields])
    (by decide) h.yopsHint
  clear h hget hreads
  obtain ⟨⟩ := read
  obtain ⟨⟩ := slot
  simp only [SlotSchema.mk.injEq]
  exact ⟨eq_of_ok htype (normalizeType_map _ _), eq_of_ok henum (asYValueArray_map _ _),
    hconst.symm, hdefault.symm, eq_of_ok hexamples (asYValueArray_map _ _),
    eq_of_ok hdescription (asOptionalString_map _ _), eq_of_ok hguidance (asOptionalString_map _ _),
    eq_of_ok hquestion (asOptionalString_map _ _), eq_of_ok hkind (asOptionalContentKind_map _ _),
    eq_of_ok hminimum (asOptionalNumber_map _ _), eq_of_ok hmaximum (asOptionalNumber_map _ _),
    eq_of_asOptionalCount_map hminLength, eq_of_asOptionalCount_map hmaxLength,
    eq_of_ok hpattern (asOptionalString_map _ _), eq_of_ok hformat (asOptionalString_map _ _),
    eq_of_asOptionalCount_map hmaxWords, eq_of_ok hprovenance (asOptionalBoolean_map _ _),
    eq_of_normalizeYOpsHint_map hhint⟩

/-! ## Records -/

/-- Records with the same keys, each once, under which the same stands are the same. -/
theorem Record.eq_of_get {V : Type} {m m' : Record V} (hkeys : m.map Prod.fst = m'.map Prod.fst)
    (hm : (m.map Prod.fst).Nodup) (hget : ∀ key, Record.get m key = Record.get m' key) :
    m = m' := by
  induction m generalizing m' with
  | nil => exact (List.map_eq_nil_iff.mp hkeys.symm).symm
  | cons e m ih =>
    obtain ⟨⟨key, v⟩, m', rfl, rfl, hrest⟩ := List.map_eq_cons_iff.mp hkeys.symm
    obtain ⟨k, w⟩ := e
    obtain ⟨hnew, hm⟩ := List.nodup_cons.mp hm
    have hfirst := hget k
    simp only [Record.get, if_true] at hfirst
    rw [Option.some.inj hfirst]
    congr 1
    refine ih hrest.symm hm fun key => ?_
    by_cases hkey : k = key
    · subst hkey
      have hnone : ∀ {m : Record V}, k ∉ m.map Prod.fst → Record.get m k = none := by
        intro m hnot
        rw [← Record.has_eq_false, Bool.eq_false_iff]
        intro hhas
        obtain ⟨u, hu⟩ := Record.has_eq_true.mp hhas
        exact hnot (List.mem_map_of_mem (f := Prod.fst) (Record.mem_of_get hu))
      rw [hnone hnew, hnone (hrest.symm ▸ hnew)]
    · have hother := hget key
      simpa only [Record.get, if_neg hkey] using hother

/-- Mapping a record with a property added. -/
theorem Record.mapValues_insertOwn {V W : Type} (f : V → W) (m : Record V) (key : JsString)
    (v : V) : Record.mapValues f (Record.insertOwn key v m) =
      Record.insertOwn key (f v) (Record.mapValues f m) := by
  induction m with
  | nil => rfl
  | cons e m ih =>
    obtain ⟨k, w⟩ := e
    change Record.mapValues f (Record.insertOwn key v ((k, w) :: m)) =
      Record.insertOwn key (f v) ((k, f w) :: Record.mapValues f m)
    unfold Record.insertOwn
    split_ifs
    · rfl
    · rw [← ih]
      rfl

/-- Mapping a record with a property defined. -/
theorem Record.mapValues_setOwn {V W : Type} (f : V → W) (m : Record V) (key : JsString) (v : V) :
    Record.mapValues f (Record.setOwn m key v) = Record.setOwn (Record.mapValues f m) key (f v) := by
  unfold Record.setOwn
  rw [Record.has_mapValues]
  split_ifs
  · simp only [Record.mapValues, List.map_map]
    refine List.map_congr_left fun e _ => ?_
    by_cases he : e.1 = key <;> simp [he]
  · exact Record.mapValues_insertOwn f m key v

/-- Mapping a record with a property deleted. -/
theorem Record.mapValues_erase {V W : Type} (f : V → W) (m : Record V) (key : JsString) :
    Record.mapValues f (Record.erase m key) = Record.erase (Record.mapValues f m) key := by
  unfold Record.mapValues Record.erase
  rw [List.filter_map]
  rfl

/-- A new property is one more. -/
theorem Record.insertOwn_perm {V : Type} (key : JsString) (v : V) (m : Record V) :
    (Record.insertOwn key v m).Perm ((key, v) :: m) := by
  induction m with
  | nil => exact List.Perm.refl _
  | cons e m ih =>
    obtain ⟨k, w⟩ := e
    unfold Record.insertOwn
    split_ifs
    · exact List.Perm.refl _
    · exact (ih.cons _).trans (List.Perm.swap _ _ _)

/-- No property is there twice after one is defined. -/
theorem Record.nodup_setOwn {V : Type} {m : Record V} (hm : (m.map Prod.fst).Nodup)
    (key : JsString) (v : V) : ((Record.setOwn m key v).map Prod.fst).Nodup := by
  unfold Record.setOwn
  split_ifs with hhas
  · have hkeys : (m.map fun e => if e.1 = key then (key, v) else e).map Prod.fst =
        m.map Prod.fst := by
      rw [List.map_map]
      refine List.map_congr_left fun e _ => ?_
      by_cases he : e.1 = key <;> simp [he]
    rwa [hkeys]
  · refine ((Record.insertOwn_perm key v m).map Prod.fst).nodup_iff.mpr ?_
    refine List.nodup_cons.mpr ⟨fun hmem => hhas ?_, hm⟩
    obtain ⟨e, he, rfl⟩ := List.mem_map.mp hmem
    exact Record.has_eq_true.mpr ⟨e.2, Record.get_eq_some_of_mem hm he⟩

/-! ## Members -/

section

variable {V W : Type} {raw : Record V} {keyContext context : JsString}
  {read : V → JsString → Except JsString W} {members expected nodes : Record W}

/-- Members are read as expected if each of them is, and these are all. -/
theorem eq_of_normalizeMembers (h : normalizeMembers raw keyContext context read = .ok members)
    (hkeys : expected.map Prod.fst = Record.keys raw)
    (hread : ∀ key v w, Record.get raw key = some v →
      read v (context ++ unit '.' :: key) = .ok w → Record.get expected key = some w) :
    members = expected := by
  have hsame := (keys_of_normalizeMembers h).trans hkeys.symm
  have hnodup := nodup_of_normalizeMembers h
  refine Record.eq_of_get hsame hnodup fun key => ?_
  cases hget : Record.get members key with
  | some w =>
    obtain ⟨v, hv, hw⟩ := get_of_normalizeMembers h hget
    exact (hread key v w hv hw).symm
  | none =>
    have hhas : Record.has members key = Record.has expected key := by
      rw [Bool.eq_iff_iff, ← Record.mem_keys, ← Record.mem_keys, Record.keys, Record.keys,
        Record.entries_of_nodup hnodup, Record.entries_of_nodup (hsame ▸ hnodup), hsame]
    rw [Record.has, hget] at hhas
    exact (Record.has_eq_false.mp hhas.symm).symm

/-- The keys of a mapped record. -/
theorem keys_mapValues_of_nodup (hnodes : (nodes.map Prod.fst).Nodup) (value : W → V) :
    Record.keys (Record.mapValues value nodes) = nodes.map Prod.fst := by
  rw [Record.keys_mapValues, Record.keys, Record.entries_of_nodup hnodes]

/-- Values that are read as one thing only are read as these things. -/
theorem eq_of_normalizeMembers_value {value : W → V} (hnodes : (nodes.map Prod.fst).Nodup)
    (hsettled : ∀ e ∈ nodes, ∀ context w, read (value e.2) context = .ok w → w = e.2)
    (h : normalizeMembers (Record.mapValues value nodes) keyContext context read = .ok members) :
    members = nodes := by
  refine eq_of_normalizeMembers h (keys_mapValues_of_nodup hnodes value).symm ?_
  intro key v w hget hread
  rw [Record.get_mapValues] at hget
  obtain ⟨node, hnode, rfl⟩ := Option.map_eq_some_iff.mp hget
  rw [hsettled _ (Record.mem_of_get hnode) _ _ hread]
  exact hnode

/-- The keys of a record with a property defined depend on the keys only. -/
theorem map_fst_setOwn (m : Record V) (key : JsString) (v : V) :
    (Record.setOwn m key v).map Prod.fst =
      (Record.setOwn (Record.mapValues (fun _ => ()) m) key ()).map Prod.fst := by
  rw [← Record.mapValues_setOwn (fun _ => ()) m key v, Record.mapValues, List.map_map]
  rfl

/-- Where one value is set, what it is read as is set. -/
theorem eq_setOwn_of_normalizeMembers {value : W → V} (hnodes : (nodes.map Prod.fst).Nodup)
    (hsettled : ∀ e ∈ nodes, ∀ context w, read (value e.2) context = .ok w → w = e.2)
    {key : JsString} {v : V}
    (h : normalizeMembers (Record.setOwn (Record.mapValues value nodes) key v) keyContext context
      read = .ok members) :
    ∃ w context, read v context = .ok w ∧ members = Record.setOwn nodes key w := by
  have hkey : Record.get (Record.setOwn (Record.mapValues value nodes) key v) key = some v := by
    rw [Record.get_setOwn, if_pos rfl]
  obtain ⟨w, hw, hread⟩ := exists_get_of_normalizeMembers h hkey
  refine ⟨w, _, hread, ?_⟩
  have hraw : ((Record.setOwn (Record.mapValues value nodes) key v).map Prod.fst).Nodup := by
    refine Record.nodup_setOwn ?_ key v
    rwa [Record.mapValues, List.map_map]
  refine eq_of_normalizeMembers h ?_ fun other v' w' hget hread' => ?_
  · rw [Record.keys, Record.entries_of_nodup hraw, map_fst_setOwn nodes,
      map_fst_setOwn (Record.mapValues value nodes)]
    simp only [Record.mapValues, List.map_map]
    rfl
  · rw [Record.get_setOwn] at hget ⊢
    split_ifs at hget ⊢ with hother
    · obtain rfl := Option.some.inj hget
      subst hother
      rw [eq_of_ok hread hread']
    · rw [Record.get_mapValues] at hget
      obtain ⟨node, hnode, rfl⟩ := Option.map_eq_some_iff.mp hget
      rw [hsettled _ (Record.mem_of_get hnode) _ _ hread']
      exact hnode

/-- Where the only member is put into no others, it is read. -/
theorem eq_setOwn_nil_of_normalizeMembers {key : JsString} {v : V}
    (h : normalizeMembers (Record.setOwn [] key v) keyContext context read = .ok members) :
    ∃ w context, read v context = .ok w ∧ members = Record.setOwn [] key w := by
  have hnil : (([] : Record W).map Prod.fst).Nodup := List.nodup_nil
  have hmapped : normalizeMembers (Record.setOwn (Record.mapValues (fun _ : W => v) []) key v)
      keyContext context read = .ok members := h
  exact eq_setOwn_of_normalizeMembers hnil (fun e he => absurd he List.not_mem_nil) hmapped

/-- Where one value is deleted, what it is read as is deleted. -/
theorem eq_erase_of_normalizeMembers {value : W → V} (hnodes : (nodes.map Prod.fst).Nodup)
    (hsettled : ∀ e ∈ nodes, ∀ context w, read (value e.2) context = .ok w → w = e.2)
    {key : JsString}
    (h : normalizeMembers (Record.erase (Record.mapValues value nodes) key) keyContext context
      read = .ok members) : members = Record.erase nodes key := by
  rw [← Record.mapValues_erase] at h
  refine eq_of_normalizeMembers_value (Record.nodup_erase hnodes key) (fun e he => ?_) h
  exact hsettled e (List.mem_of_mem_filter he)

end

/-! ## Nodes -/

/-- The slots that a value declares are read one by one. -/
theorem normalizeSlots_eq_ok_iff {value : Option JsValue} {context : JsString}
    {slots : Option (Record SlotSchema)} :
    normalizeSlots regExpError value context = .ok slots ↔
      (value = none ∧ slots = none) ∨ ∃ raw declared, value = some (.obj raw) ∧
        slots = some declared ∧
          normalizeMembers raw context context (normalizeSlot regExpError) = .ok declared := by
  unfold normalizeSlots
  match value with
  | none => simp [eq_comm]
  | some (.obj raw) =>
    simp only [asRecord, bind_eq_ok_iff, reduceCtorEq, false_and, false_or, Option.some.injEq,
      JsValue.obj.injEq, Except.ok.injEq, exists_eq_left', exists_and_left]
    refine exists_congr fun declared => ?_
    rw [and_comm]
    exact and_congr_left fun _ => ⟨fun h => (Except.ok.inj h).symm, fun h => h ▸ rfl⟩
  | some .null | some (.bool _) | some (.num _) | some (.str _) | some (.arr _) =>
    simp [asRecord, invalidSchema, bind_eq_ok_iff]

/-- The node is read of some value. -/
def NodeSchema.IsRead (regExpError : JsString → Option JsString) (node : NodeSchema) : Prop :=
  ∃ value context, normalizeNode regExpError value context = .ok node

/-- Nodes that are read, each under a key of its own. -/
structure AreRead (regExpError : JsString → Option JsString) (nodes : Record NodeSchema) :
    Prop where
  /-- No key is there twice. -/
  nodup : (nodes.map Prod.fst).Nodup
  /-- Each node is read. -/
  isRead : ∀ e ∈ nodes, e.2.IsRead regExpError

/-- Members that are read as nodes are nodes that are read. -/
theorem areRead_of_normalizeMembers {raw : Record JsValue} {keyContext context : JsString}
    {nodes : Record NodeSchema}
    (h : normalizeMembers raw keyContext context (normalizeNode regExpError) = .ok nodes) :
    AreRead regExpError nodes := by
  refine ⟨nodup_of_normalizeMembers h, fun e he => ?_⟩
  have hget := Record.get_eq_some_of_mem (nodup_of_normalizeMembers h) he
  obtain ⟨value, -, hread⟩ := get_of_normalizeMembers h hget
  exact ⟨value, _, hread⟩

/-- The declared children of a node that is read are read. -/
theorem NodeSchema.IsRead.children {node : NodeSchema} (h : node.IsRead regExpError) :
    AreRead regExpError (Children.nodes node.children) := by
  obtain ⟨value, context, h⟩ := h
  obtain ⟨raw, rfl, hdescribes⟩ := (normalizeNode_eq_ok_iff regExpError).mp h
  rcases (normalizeChildren_eq_ok_iff regExpError).mp hdescribes.children with ⟨-, hnone⟩ |
    ⟨-, hany⟩ | ⟨raw, nodes, -, hdeclared, hmembers⟩
  · rw [hnone]
    exact ⟨List.nodup_nil, fun e he => absurd he List.not_mem_nil⟩
  · rw [hany]
    exact ⟨List.nodup_nil, fun e he => absurd he List.not_mem_nil⟩
  · rw [hdeclared]
    exact areRead_of_normalizeMembers hmembers

/-- No slot of a node that is read is there twice. -/
theorem NodeSchema.IsRead.nodup_slots {node : NodeSchema} (h : node.IsRead regExpError) :
    ((node.head.slots.getD []).map Prod.fst).Nodup := by
  obtain ⟨value, context, h⟩ := h
  obtain ⟨raw, rfl, hdescribes⟩ := (normalizeNode_eq_ok_iff regExpError).mp h
  rcases normalizeSlots_eq_ok_iff.mp hdescribes.slots with ⟨-, hnone⟩ |
    ⟨raw, declared, -, hsome, hmembers⟩
  · rw [hnone]
    exact List.nodup_nil
  · rw [hsome]
    exact nodup_of_normalizeMembers hmembers

/-- What a mapping says of a node but for its slots and its children is read as what it says. -/
theorem head_of_describesNode {raw : Record JsValue} {reading : Option NodeReading}
    {context : JsString} {read : NodeSchema} {head : NodeHead}
    {children : Option (Children JsValue)}
    (h : DescribesNode regExpError raw reading context read)
    (hraw : ∀ key, key ≠ js "slots" → key ≠ js "children" →
      Record.get raw key = Record.get (present (head.fields children)) key) :
    { read.head with slots := none } = { head with slots := none } := by
  have hnames : fieldNames (head.fields children) = nodeNames.map js := rfl
  have hget := get_present (head.nodup_fields children)
  have hsnake : ∀ snake : String, js snake ∉ nodeNames.map js → js snake ≠ js "slots" →
      js snake ≠ js "children" → Record.get raw (js snake) = none := by
    intro snake hnot hslots hchildren
    rw [hraw _ hslots hchildren]
    exact get_present_of_not_mem (hnames ▸ hnot)
  have hrequired := h.required
  have hrepeated := h.repeated
  have hdescription := h.description
  have hguidance := h.contentGuidance.eq_ok (hsnake _ (by decide) (by decide) (by decide))
  have hkind := h.contentKind.eq_ok (hsnake _ (by decide) (by decide) (by decide))
  have hnamesRead := h.requiredSlots.eq_ok (hsnake _ (by decide) (by decide) (by decide))
  rw [hraw _ (by decide) (by decide), hget "required" (head.required.map .bool)
    (by simp [NodeHead.fields])] at hrequired
  rw [hraw _ (by decide) (by decide), hget "repeated" (head.repeated.map .bool)
    (by simp [NodeHead.fields])] at hrepeated
  rw [hraw _ (by decide) (by decide), hget "description" (head.description.map .str)
    (by simp [NodeHead.fields])] at hdescription
  rw [hraw _ (by decide) (by decide), hget "contentGuidance" (head.contentGuidance.map .str)
    (by simp [NodeHead.fields])] at hguidance
  rw [hraw _ (by decide) (by decide), hget "contentKind"
    (head.contentKind.map fun kind => .str kind.text) (by simp [NodeHead.fields])] at hkind
  rw [hraw _ (by decide) (by decide), hget "requiredSlots"
    (head.requiredSlots.map fun keys => .arr (keys.map .str)) (by simp [NodeHead.fields])]
    at hnamesRead
  rw [NodeHead.mk.injEq]
  exact ⟨eq_of_ok hrequired (asOptionalBoolean_map _ _),
    eq_of_ok hrepeated (asOptionalBoolean_map _ _),
    eq_of_ok hdescription (asOptionalString_map _ _),
    eq_of_ok hguidance (asOptionalString_map _ _),
    eq_of_ok hkind (asOptionalContentKind_map _ _), rfl, eq_of_asKeyArray_map hnamesRead⟩

/-- The members of a node but for its children are the same if they are but for the slots, and
the slots are. -/
theorem NodeHead.eq_of_slots {head head' : NodeHead}
    (h : { head with slots := none } = { head' with slots := none })
    (hslots : head.slots = head'.slots) : head = head' := by
  calc head = { ({ head with slots := none } : NodeHead) with slots := head.slots } := rfl
    _ = { ({ head' with slots := none } : NodeHead) with slots := head'.slots } := by rw [h, hslots]
    _ = head' := rfl

/-- The slots of a node are read as themselves. -/
theorem eq_of_normalizeSlots_map {slots read : Option (Record SlotSchema)} {context : JsString}
    (hslots : ((slots.getD []).map Prod.fst).Nodup)
    (h : normalizeSlots regExpError (slots.map fun slots =>
      .obj (Record.mapValues SlotSchema.value slots)) context = .ok read) : read = slots := by
  rcases normalizeSlots_eq_ok_iff.mp h with ⟨hnone, rfl⟩ | ⟨raw, declared, hsome, rfl, hmembers⟩
  · exact (Option.map_eq_none_iff.mp hnone).symm
  · obtain ⟨slots', rfl, hraw⟩ := Option.map_eq_some_iff.mp hsome
    obtain rfl := JsValue.obj.inj hraw
    exact congrArg some (eq_of_normalizeMembers_value hslots
      (fun e _ context w hw => eq_of_normalizeSlot_value hw) hmembers)

/-- The children of a node are read as themselves if each of the declared ones is. -/
theorem eq_of_normalizeChildren_map {children read : Option (Children NodeSchema)}
    {context : JsString} (hnodup : ((Children.nodes children).map Prod.fst).Nodup)
    (hsettled : ∀ e ∈ Children.nodes children, ∀ context node,
      normalizeNode regExpError e.2.value context = .ok node → node = e.2)
    (h : normalizeChildren (((mapChildren NodeSchema.value children).map Children.value).map
      (nodeReading regExpError)) context = .ok read) : read = children := by
  match children with
  | none => exact (Except.ok.inj h).symm
  | some .any =>
    rcases (normalizeChildren_eq_ok_iff regExpError).mp h with ⟨hnone, -⟩ | ⟨-, rfl⟩ |
      ⟨raw, nodes, hobj, -⟩
    · cases hnone
    · rfl
    · cases hobj
  | some (.declared declared) =>
    rcases (normalizeChildren_eq_ok_iff regExpError).mp h with ⟨hnone, -⟩ | ⟨hany, -⟩ |
      ⟨raw, nodes, hobj, rfl, hmembers⟩
    · cases hnone
    · cases hany
    · obtain rfl := JsValue.obj.inj (Option.some.inj hobj)
      have heq : nodes = declared := eq_of_normalizeMembers_value hnodup hsettled hmembers
      rw [heq]

/-- A node that is read is read again as itself, if it is read. -/
theorem NodeSchema.IsRead.settled {node : NodeSchema} : node.IsRead regExpError →
    ∀ context read, normalizeNode regExpError node.value context = .ok read → read = node := by
  induction node using NodeSchema.induct with
  | mk head children ih =>
    intro hread context read h
    rw [NodeSchema.value_mk, normalizeNode_eq_ok_iff] at h
    obtain ⟨raw, hraw, hdescribes⟩ := h
    obtain rfl := JsValue.obj.inj hraw
    have hget := get_present (head.nodup_fields (mapChildren NodeSchema.value children))
    have hslots := hdescribes.slots
    have hchildren := hdescribes.children
    rw [hget "slots" (head.slots.map fun slots => .obj (Record.mapValues SlotSchema.value slots))
      (by simp [NodeHead.fields])] at hslots
    rw [hget "children" ((mapChildren NodeSchema.value children).map Children.value)
      (by simp [NodeHead.fields])] at hchildren
    have hhead := head_of_describesNode hdescribes fun _ _ _ => rfl
    have hslotsEq := eq_of_normalizeSlots_map hread.nodup_slots hslots
    have hkept := hread.children
    have hchildrenEq := eq_of_normalizeChildren_map hkept.nodup
      (fun e he context node hnode => ih e he (hkept.isRead e he) context node hnode) hchildren
    obtain ⟨readHead, readChildren⟩ := read
    obtain rfl : readChildren = children := hchildrenEq
    exact congrArg (NodeSchema.mk · readChildren) (NodeHead.eq_of_slots hhead hslotsEq)

/-- Where the declared children of a node are other ones, these are read. -/
theorem NodeSchema.IsRead.of_children {node read : NodeSchema} (h : node.IsRead regExpError)
    {inner : Record JsValue} {context : JsString}
    (hread : normalizeNode regExpError (.obj (Record.setOwn
      (present (node.head.fields (mapChildren NodeSchema.value node.children))) (js "children")
      (.obj inner))) context = .ok read) :
    ∃ members context, normalizeMembers inner context context (normalizeNode regExpError) =
      .ok members ∧ read = .mk node.head (some (.declared members)) := by
  obtain ⟨raw, hraw, hdescribes⟩ := (normalizeNode_eq_ok_iff regExpError).mp hread
  obtain rfl := JsValue.obj.inj hraw
  have hget := get_present (node.head.nodup_fields (mapChildren NodeSchema.value node.children))
  have hslots := hdescribes.slots
  have hchildren := hdescribes.children
  rw [Record.get_setOwn, if_neg (by decide), hget "slots" (node.head.slots.map fun slots =>
    .obj (Record.mapValues SlotSchema.value slots)) (by simp [NodeHead.fields])] at hslots
  rw [Record.get_setOwn, if_pos rfl] at hchildren
  have hhead := head_of_describesNode hdescribes fun key _ hkey => by
    rw [Record.get_setOwn, if_neg hkey]
  have hslotsEq := eq_of_normalizeSlots_map h.nodup_slots hslots
  rcases (normalizeChildren_eq_ok_iff regExpError).mp hchildren with ⟨hnone, -⟩ | ⟨hany, -⟩ |
    ⟨raw', members, hobj, hdeclared, hmembers⟩
  · cases hnone
  · cases hany
  · obtain rfl := JsValue.obj.inj (Option.some.inj hobj)
    refine ⟨members, _, hmembers, ?_⟩
    obtain ⟨readHead, readChildren⟩ := read
    obtain rfl : readChildren = some (.declared members) := hdeclared
    refine congrArg (NodeSchema.mk · (some (.declared members))) ?_
    exact NodeHead.eq_of_slots hhead hslotsEq

/-- Where the slots of a node are other ones and the names of those that have to be there, these
are read. -/
theorem NodeSchema.IsRead.of_slots {node read : NodeSchema} (h : node.IsRead regExpError)
    {head : NodeHead} {raw slotsRaw : Record JsValue} {context : JsString}
    (hslotsRaw : Record.get raw (js "slots") = some (.obj slotsRaw))
    (hraw : ∀ key, key ≠ js "slots" → Record.get raw key =
      Record.get (present (head.fields (mapChildren NodeSchema.value node.children))) key)
    (hread : normalizeNode regExpError (.obj raw) context = .ok read) :
    ∃ slots context, normalizeMembers slotsRaw context context (normalizeSlot regExpError) =
      .ok slots ∧ read = .mk { head with slots := some slots } node.children := by
  obtain ⟨raw, hobj, hdescribes⟩ := (normalizeNode_eq_ok_iff regExpError).mp hread
  obtain rfl := JsValue.obj.inj hobj
  have hslots := hdescribes.slots
  have hchildren := hdescribes.children
  rw [hslotsRaw] at hslots
  rw [hraw _ (by decide), get_present (head.nodup_fields _) "children"
    ((mapChildren NodeSchema.value node.children).map Children.value)
    (by simp [NodeHead.fields])] at hchildren
  have hhead := head_of_describesNode hdescribes fun key hkey _ => hraw key hkey
  have hkept := h.children
  have hchildrenEq := eq_of_normalizeChildren_map hkept.nodup
    (fun e he => (hkept.isRead e he).settled) hchildren
  rcases normalizeSlots_eq_ok_iff.mp hslots with ⟨hnone, -⟩ | ⟨raw', slots, hsome, hdeclared,
    hmembers⟩
  · cases hnone
  · obtain rfl := JsValue.obj.inj (Option.some.inj hsome)
    refine ⟨slots, _, hmembers, ?_⟩
    obtain ⟨readHead, readChildren⟩ := read
    obtain rfl : readChildren = node.children := hchildrenEq
    refine congrArg (NodeSchema.mk · node.children) ?_
    have hslotsEq : readHead.slots = { head with slots := some slots : NodeHead }.slots := hdeclared
    exact NodeHead.eq_of_slots hhead hslotsEq

/-! ## Relation types and rules -/

/-- A relation type is read as itself. -/
theorem eq_of_normalizeRelationType_value {nodes : Record NodeSchema}
    {typeSchema read : RelationTypeSchema} {context : JsString}
    (h : normalizeRelationType nodes typeSchema.value context = .ok read) : read = typeSchema := by
  have hnames : fieldNames typeSchema.fields = relationTypeNames.map js := rfl
  have hnodup : (fieldNames typeSchema.fields).Nodup := by rw [hnames]; decide
  have hget := get_present hnodup
  have hsnake : Record.get (present typeSchema.fields) (js "content_guidance") = none :=
    get_present_of_not_mem (by rw [hnames]; decide)
  unfold normalizeRelationType RelationTypeSchema.value at h
  obtain ⟨raw, hraw, h⟩ := bind_eq_ok_iff.mp h
  obtain rfl := Except.ok.inj hraw
  obtain ⟨-, -, h⟩ := bind_eq_ok_iff.mp h
  obtain ⟨-, -, h⟩ := bind_eq_ok_iff.mp h
  obtain ⟨«from», hfrom, h⟩ := bind_eq_ok_iff.mp h
  obtain ⟨«to», hto, h⟩ := bind_eq_ok_iff.mp h
  obtain ⟨-, -, h⟩ := bind_eq_ok_iff.mp h
  obtain ⟨-, -, h⟩ := bind_eq_ok_iff.mp h
  obtain ⟨description, hdescription, h⟩ := bind_eq_ok_iff.mp h
  obtain ⟨rawGuidance, hrawGuidance, h⟩ := bind_eq_ok_iff.mp h
  obtain ⟨guidance, hguidance, h⟩ := bind_eq_ok_iff.mp h
  obtain ⟨acyclic, hacyclic, h⟩ := bind_eq_ok_iff.mp h
  have hfield : ReadsField (present typeSchema.fields) "contentGuidance" "content_guidance"
      (asOptionalString · (context ++ js ".contentGuidance")) guidance :=
    ⟨rawGuidance, hrawGuidance, hguidance⟩
  have hread := hfield.eq_ok hsnake
  rw [hget "from" (some (.str typeSchema.from)) (by simp [RelationTypeSchema.fields])] at hfrom
  rw [hget "to" (some (.str typeSchema.to)) (by simp [RelationTypeSchema.fields])] at hto
  rw [hget "description" (typeSchema.description.map .str) (by simp [RelationTypeSchema.fields])]
    at hdescription
  rw [hget "contentGuidance" (typeSchema.contentGuidance.map .str)
    (by simp [RelationTypeSchema.fields])] at hread
  rw [hget "acyclic" (typeSchema.acyclic.map .bool) (by simp [RelationTypeSchema.fields])]
    at hacyclic
  rw [← Except.ok.inj h]
  obtain ⟨⟩ := typeSchema
  simp only [RelationTypeSchema.mk.injEq]
  exact ⟨(Except.ok.inj hfrom).symm, (Except.ok.inj hto).symm,
    eq_of_ok hdescription (asOptionalString_map _ _), eq_of_ok hread (asOptionalString_map _ _),
    eq_of_ok hacyclic (asOptionalBoolean_map _ _)⟩

/-- A rule is read as itself. -/
theorem eq_of_normalizeRule_value {nodes : Record NodeSchema}
    {types : Record RelationTypeSchema} {rule read : YSchemaRuleSchema} {index : ℕ}
    (h : normalizeRule nodes types (rule.value, index) = .ok read) : read = rule := by
  cases rule with
  | reserved rule =>
    have hnames : fieldNames (YSchemaRuleSchema.reserved rule).fields =
        ["id", "description"].map js := rfl
    have hnodup : (fieldNames (YSchemaRuleSchema.reserved rule).fields).Nodup := by
      rw [hnames]; decide
    have hget := get_present hnodup
    have hkind : Record.get (present (YSchemaRuleSchema.reserved rule).fields) (js "kind") = none :=
      get_present_of_not_mem (by rw [hnames]; decide)
    unfold normalizeRule YSchemaRuleSchema.value at h
    obtain ⟨raw, hraw, h⟩ := bind_eq_ok_iff.mp h
    obtain rfl := Except.ok.inj hraw
    simp only [hkind] at h
    unfold normalizeReservedRule at h
    obtain ⟨-, -, h⟩ := bind_eq_ok_iff.mp h
    obtain ⟨id, hid, h⟩ := bind_eq_ok_iff.mp h
    obtain ⟨description, hdescription, h⟩ := bind_eq_ok_iff.mp h
    rw [hget "id" (some (.str rule.id)) (by simp [YSchemaRuleSchema.fields])] at hid
    rw [hget "description" (rule.description.map .str) (by simp [YSchemaRuleSchema.fields])]
      at hdescription
    rw [← Except.ok.inj h, ← JsValue.str.inj (Option.some.inj (asName_eq_ok_iff.mp hid).1),
      eq_of_ok hdescription (asOptionalString_map _ _)]
  | requiredRelation rule =>
    have hnames : fieldNames (YSchemaRuleSchema.requiredRelation rule).fields =
        ["id", "kind", "relationType", "from", "to", "description"].map js := rfl
    have hnodup : (fieldNames (YSchemaRuleSchema.requiredRelation rule).fields).Nodup := by
      rw [hnames]; decide
    have hget := get_present hnodup
    have hsnake : Record.get (present (YSchemaRuleSchema.requiredRelation rule).fields)
        (js "relation_type") = none := get_present_of_not_mem (by rw [hnames]; decide)
    unfold normalizeRule YSchemaRuleSchema.value at h
    obtain ⟨raw, hraw, h⟩ := bind_eq_ok_iff.mp h
    obtain rfl := Except.ok.inj hraw
    simp only [hget "kind" (some (.str (js "required_relation")))
      (by simp [YSchemaRuleSchema.fields]), if_true] at h
    unfold normalizeRequiredRelationRule at h
    obtain ⟨-, -, h⟩ := bind_eq_ok_iff.mp h
    obtain ⟨id, hid, h⟩ := bind_eq_ok_iff.mp h
    obtain ⟨rawType, hrawType, h⟩ := bind_eq_ok_iff.mp h
    obtain ⟨type, htype, h⟩ := bind_eq_ok_iff.mp h
    obtain ⟨-, -, h⟩ := bind_eq_ok_iff.mp h
    obtain ⟨-, h⟩ := invalidSchema_eq_ok_iff.mp h
    obtain ⟨«from», hfrom, h⟩ := bind_eq_ok_iff.mp h
    obtain ⟨«to», hto, h⟩ := bind_eq_ok_iff.mp h
    obtain ⟨-, -, h⟩ := bind_eq_ok_iff.mp h
    obtain ⟨-, -, h⟩ := bind_eq_ok_iff.mp h
    obtain ⟨description, hdescription, h⟩ := bind_eq_ok_iff.mp h
    have hfield : ReadsField (present (YSchemaRuleSchema.requiredRelation rule).fields)
        "relationType" "relation_type" (fun value => asString value
          (js "rules[" ++ natToString index ++ js "]" ++ js ".relationType")) type :=
      ⟨rawType, hrawType, htype⟩
    have hread := hfield.eq_ok hsnake
    rw [hget "id" (some (.str rule.id)) (by simp [YSchemaRuleSchema.fields])] at hid
    rw [hget "relationType" (some (.str rule.relationType)) (by simp [YSchemaRuleSchema.fields])]
      at hread
    rw [hget "from" (some (.str rule.from)) (by simp [YSchemaRuleSchema.fields])] at hfrom
    rw [hget "to" (some (.str rule.to)) (by simp [YSchemaRuleSchema.fields])] at hto
    rw [hget "description" (rule.description.map .str) (by simp [YSchemaRuleSchema.fields])]
      at hdescription
    rw [← Except.ok.inj h, ← JsValue.str.inj (Option.some.inj (asName_eq_ok_iff.mp hid).1),
      ← Except.ok.inj hread, ← Except.ok.inj hfrom, ← Except.ok.inj hto,
      eq_of_ok hdescription (asOptionalString_map _ _)]

/-- Rules are read as themselves. -/
theorem eq_of_normalizeRules_value {nodes : Record NodeSchema}
    {types : Record RelationTypeSchema} {rules read : List YSchemaRuleSchema}
    (h : normalizeRules (some (.arr (rules.map YSchemaRuleSchema.value))) nodes types =
      .ok read) : read = rules := by
  rw [normalizeRules_some_arr] at h
  have hall := mapM_eq_ok_iff.mp h
  clear h
  generalize 0 = start at hall
  induction rules generalizing start read with
  | nil =>
    cases hall
    rfl
  | cons rule rules ih =>
    rw [List.map_cons, List.zipIdx_cons] at hall
    obtain ⟨first, rest, hfirst, hrest, rfl⟩ := List.forall₂_cons_left_iff.mp hall
    rw [ih _ hrest, eq_of_normalizeRule_value hfirst]

end T3x.Yschema
