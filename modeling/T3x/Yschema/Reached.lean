import T3x.Yschema.Places

/-!
# The findings along the walk

What the validation finds in a mapping is what it finds there itself and what it
finds in the mappings that it walks on to. So every finding in a document is one of
a single mapping that the walk reaches from a node of the schema. None of them is
an error in the schema or in the relations, and the only thing thrown on the way is
the conversion of an enumeration to a text.
-/

namespace T3x.Yschema

open Js

/-- A demand finds something exactly where it is not met. -/
theorem mem_demand {ok : Bool} {f g : Finding} : f ∈ demand ok g ↔ ok = false ∧ f = g := by
  cases ok <;> simp [demand]

section

variable (regExpTest : JsString → JsString → Bool) (input : ValidationInput)

/-- The keys that are not declared, of the children that are visited. -/
theorem validateUnexpectedKeys_mapChildren (path : JsString) (head : NodeHead)
    (children : Option (Children NodeSchema)) (members : Record JsValue) :
    validateUnexpectedKeys input path head (mapChildren (validateNode regExpTest input) children) members =
      validateUnexpectedKeys input path head children members := by
  match children with
  | none => rfl
  | some .any => rfl
  | some (.declared nodes) =>
    simp only [validateUnexpectedKeys, mapChildren, Children.nodes, Record.has_mapValues]

/-- Validating a node, in terms of its children. -/
theorem validateNode_mk (head : NodeHead) (children : Option (Children NodeSchema)) :
    validateNode regExpTest input (.mk head children) =
      validateNodeWith regExpTest input head (mapChildren (validateNode regExpTest input) children) :=
  NodeSchema.fold_mk _ head children

/-- What is found in the mapping of the body of a node. -/
theorem Place.found_body (head : NodeHead) (children : Option (Children NodeSchema))
    (path : JsString) (members : Record JsValue) :
    (Place.body (.mk head children)).found regExpTest input path members =
      validateNodeBody regExpTest input head
        (mapChildren (validateNode regExpTest input) children) path members := by
  match children with
  | none => rfl
  | some .any => rfl
  | some (.declared nodes) => rfl

/-- What is found in the mapping of the items of a node. -/
theorem Place.found_items (head : NodeHead) (children : Option (Children NodeSchema))
    (path : JsString) (members : Record JsValue) :
    (Place.items (.mk head children)).found regExpTest input path members =
      validateItems regExpTest input head
        (mapChildren (validateNode regExpTest input) children) path members := by
  match children with
  | none => rfl
  | some .any => rfl
  | some (.declared nodes) => rfl

/-- What the validation finds in a value as a node: in the value, and in the mapping that it is. -/
theorem validateNode_eq (node : NodeSchema) (path : JsString) (value : Option JsValue) :
    validateNode regExpTest input node path value = childFindings node path value ++
      match value with
      | some (.obj members) => node.place.found regExpTest input path members
      | _ => [] := by
  obtain ⟨head, children⟩ := node
  rw [validateNode_mk]
  unfold validateNodeWith childFindings
  simp only [isSome_mapChildren, NodeSchema.head, NodeSchema.children]
  match value with
  | none => exact (List.append_nil _).symm
  | some (.obj members) =>
    by_cases hrepeated : head.repeated = some true
    · have hplace : (NodeSchema.mk head children).place = .items (.mk head children) :=
        if_pos hrepeated
      simp only [if_pos hrepeated, hplace, Place.found_items, List.nil_append]
    · have hplace : (NodeSchema.mk head children).place = .body (.mk head children) :=
        if_neg hrepeated
      simp only [if_neg hrepeated, hplace, Place.found_body, List.nil_append]
  | some .null | some (.bool _) | some (.num _) | some (.str _) | some (.arr _) =>
    exact (List.append_nil _).symm

namespace Place

/-- What is found in the mapping of a place is found there itself, or in a mapping that the
walk goes on to. -/
theorem mem_found {place : Place} {path : JsString} {members : Record JsValue} {f : Finding} :
    f ∈ place.found regExpTest input path members ↔
      f ∈ place.own regExpTest input path members ∨
        ∃ key next inner, place.next key = some next ∧ Record.get members key = some (.obj inner) ∧
          f ∈ next.found regExpTest input (joinPath path key) inner := by
  rcases place with ⟨⟨head, children⟩⟩ | ⟨⟨head, children⟩⟩
  case body =>
    rw [found_body]
    unfold validateNodeBody own next NodeSchema.child
    rw [nodes_mapChildren, validateUnexpectedKeys_mapChildren, Record.entries_mapValues]
    simp only [NodeSchema.head, NodeSchema.children, List.mem_append, List.mem_flatMap,
      Record.mapValues, List.mem_map, exists_exists_and_eq_and, validateNode_eq]
    constructor
    · rintro ((h | ⟨⟨key, child⟩, hmem, h | h⟩) | h)
      · exact .inl (.inl (.inl h))
      · exact .inl (.inl (.inr ⟨_, hmem, h⟩))
      · split at h
        · next inner hinner =>
          exact .inr ⟨key, child.place, inner, by rw [Record.mem_entries.mp hmem]; rfl, hinner, h⟩
        · exact absurd h List.not_mem_nil
      · exact .inl (.inr h)
    · rintro (((h | ⟨⟨key, child⟩, hmem, h⟩) | h) | ⟨key, next, inner, hnext, hinner, h⟩)
      · exact .inl (.inl h)
      · exact .inl (.inr ⟨_, hmem, .inl h⟩)
      · exact .inr h
      · obtain ⟨child, hchild, rfl⟩ := Option.map_eq_some_iff.mp hnext
        exact .inl (.inr ⟨(key, child), Record.mem_entries.mpr hchild, .inr (by rw [hinner]; exact h)⟩)
  case items =>
    rw [found_items]
    unfold validateItems own next itemFindings
    simp only [List.mem_append, List.mem_flatMap]
    constructor
    · rintro ⟨⟨key, value⟩, hmem, h | h⟩
      · exact .inl ⟨_, hmem, .inl h⟩
      · cases value with
        | obj inner =>
          refine .inr ⟨key, _, inner, rfl, Record.mem_entries.mp hmem, ?_⟩
          rw [found_body]
          exact h
        | _ => exact .inl ⟨_, hmem, .inr h⟩
    · rintro (⟨⟨key, value⟩, hmem, h | h⟩ | ⟨key, next, inner, hnext, hinner, h⟩)
      · exact ⟨_, hmem, .inl h⟩
      · cases value with
        | obj inner => exact absurd h (by simp [mem_demand, isMapping])
        | _ => exact ⟨_, hmem, .inr h⟩
      · obtain rfl := Option.some.inj hnext
        rw [found_body] at h
        exact ⟨(key, .obj inner), Record.mem_entries.mpr hinner, .inr h⟩

/-- What is found in the mapping of a place is found in one mapping that the walk reaches. -/
theorem mem_found_iff_walk {place : Place} {path : JsString} {members : Record JsValue}
    {f : Finding} :
    f ∈ place.found regExpTest input path members ↔
      ∃ keys place' members', walk keys place members = some (place', members') ∧
        f ∈ place'.own regExpTest input (keys.foldl joinPath path) members' := by
  constructor
  · -- The walk goes down the schema: from the items of a node to its body, from there to a child.
    have hbody : ∀ node : NodeSchema, ∀ path members, f ∈ (Place.body node).found regExpTest input
        path members → ∃ keys place' members', walk keys (.body node) members =
          some (place', members') ∧
            f ∈ place'.own regExpTest input (keys.foldl joinPath path) members' := by
      intro node
      induction node using NodeSchema.induct with
      | mk head children ih =>
        intro path members h
        rcases (mem_found regExpTest input).mp h with h | ⟨key, next, inner, hnext, hinner, h⟩
        · exact ⟨[], _, members, rfl, h⟩
        · have hwalk : ∃ keys place' members', walk keys next inner = some (place', members') ∧
              f ∈ place'.own regExpTest input (keys.foldl joinPath (joinPath path key)) members' := by
            obtain ⟨child, hchild, rfl⟩ := Option.map_eq_some_iff.mp hnext
            have ihChild := ih (key, child) (Record.mem_of_get hchild)
            unfold NodeSchema.place at h ⊢
            split_ifs at h ⊢
            · rcases (mem_found regExpTest input).mp h with h | ⟨key', next', inner', hnext', hinner', h⟩
              · exact ⟨[], _, inner, rfl, h⟩
              · obtain rfl := Option.some.inj hnext'
                obtain ⟨keys, place', members', hwalk, hown⟩ := ihChild _ _ h
                exact ⟨key' :: keys, place', members',
                  walk_cons.mpr ⟨_, inner', rfl, hinner', hwalk⟩, hown⟩
            · exact ihChild _ _ h
          obtain ⟨keys, place', members', hwalk, hown⟩ := hwalk
          exact ⟨key :: keys, place', members', walk_cons.mpr ⟨next, inner, hnext, hinner, hwalk⟩,
            hown⟩
    intro h
    match place with
    | .body node => exact hbody node path members h
    | .items node =>
      rcases (mem_found regExpTest input).mp h with h | ⟨key, next, inner, hnext, hinner, h⟩
      · exact ⟨[], _, members, rfl, h⟩
      · obtain rfl := Option.some.inj hnext
        obtain ⟨keys, place', members', hwalk, hown⟩ := hbody node _ _ h
        exact ⟨key :: keys, place', members', walk_cons.mpr ⟨_, inner, rfl, hinner, hwalk⟩, hown⟩
  · rintro ⟨keys, place', members', hwalk, hown⟩
    induction keys generalizing place path members with
    | nil =>
      obtain ⟨rfl, rfl⟩ := Prod.mk.inj (Option.some.inj hwalk)
      exact (mem_found regExpTest input).mpr (.inl hown)
    | cons key keys ih =>
      obtain ⟨next, inner, hnext, hinner, hwalk⟩ := walk_cons.mp hwalk
      exact (mem_found regExpTest input).mpr (.inr ⟨key, next, inner, hnext, hinner, ih hwalk hown⟩)

end Place

/-! ## The document -/

/-- The walk from a node of the schema reaches the mapping, at the place. -/
def ValidationInput.Reaches (place : Place) (members : Record JsValue) : Prop :=
  ∃ top nodeKey node inner keys, input.tree = .obj top ∧
    Record.get input.schema.nodes nodeKey = some node ∧
    Record.get top nodeKey = some (.obj inner) ∧
    Place.walk keys node.place inner = some (place, members)

/-- What is found in a document is found at the top, in a value for a node of the schema, or
in a mapping that the walk reaches. -/
theorem mem_documentFindings {f : Finding} (h : f ∈ documentFindings regExpTest input) :
    (∃ e : ValidationError, f = .error e ∧ e.code ∈ ["INVALID_TYPE", "UNEXPECTED_NODE"]) ∨
      (∃ node path value, f ∈ childFindings node path value) ∨
      ∃ place path members, input.Reaches place members ∧
        f ∈ place.own regExpTest input path members := by
  unfold documentFindings at h
  split at h
  · next top htop =>
    rcases List.mem_append.mp h with h | h
    · split_ifs at h with hstrict
      · exact absurd h List.not_mem_nil
      · obtain ⟨key, -, h⟩ := List.mem_flatMap.mp h
        exact .inl ⟨_, (mem_demand.mp h).2, by simp⟩
    · obtain ⟨⟨nodeKey, node⟩, hnode, h⟩ := List.mem_flatMap.mp h
      simp only [validateNode_eq, List.mem_append] at h
      rcases h with h | h
      · exact .inr (.inl ⟨node, nodeKey, _, h⟩)
      · split at h
        · next inner hinner =>
          obtain ⟨keys, place, members, hwalk, hown⟩ := (Place.mem_found_iff_walk _ _).mp h
          exact .inr (.inr ⟨place, _, members, ⟨top, nodeKey, node, inner, keys, htop,
            Record.mem_entries.mp hnode, hinner, hwalk⟩, hown⟩)
        · exact absurd h List.not_mem_nil
  · rw [List.mem_singleton] at h
    exact .inl ⟨_, h, by simp⟩

/-- What is found in a mapping that the walk reaches is found in the document. -/
theorem mem_documentFindings_of_reaches {place : Place} {members : Record JsValue}
    (h : input.Reaches place members) : ∃ path, ∀ f ∈ place.own regExpTest input path members,
      f ∈ documentFindings regExpTest input := by
  obtain ⟨top, nodeKey, node, inner, keys, htop, hnode, hinner, hwalk⟩ := h
  refine ⟨keys.foldl joinPath nodeKey, fun f hf => ?_⟩
  have hfound := (Place.mem_found_iff_walk regExpTest input).mpr ⟨keys, place, members, hwalk, hf⟩
  unfold documentFindings
  rw [htop]
  refine List.mem_append_right _ (List.mem_flatMap.mpr ⟨(nodeKey, node),
    Record.mem_entries.mpr hnode, ?_⟩)
  simp only [validateNode_eq, hinner]
  exact List.mem_append_right _ hfound

/-! ## The codes of the errors -/

/-- The codes of the errors in a document. -/
def documentCodes : List String :=
  ["INVALID_TYPE", "UNEXPECTED_NODE", "UNEXPECTED_SLOT", "INVALID_REPEATED_ITEM_KEY",
    "INVALID_LENGTH", "INVALID_ENUM", "INVALID_RANGE", "INVALID_PATTERN", "INVALID_CONST"]

/-- An error about the value of a slot has one of the codes. -/
theorem code_of_mem_validateSlotValue {slotKey slotPath : JsString} {slot : SlotSchema}
    {value : JsValue} {e : ValidationError}
    (h : .error e ∈ validateSlotValue regExpTest slotKey slotPath slot value) :
    e.code ∈ documentCodes := by
  have hlength : ∀ verb unitText length,
      .error e ∈ lengthFindings slotKey slotPath slot verb unitText length →
        e.code ∈ documentCodes := by
    intro verb unitText length h
    simp only [lengthFindings, boundError, List.mem_append, List.mem_flatMap, mem_demand,
      Finding.error.injEq] at h
    rcases h with ⟨-, -, -, rfl⟩ | ⟨-, -, -, rfl⟩ <;> simp [documentCodes]
  have hmeasure : .error e ∈ measureFindings regExpTest slotKey slotPath slot value →
      e.code ∈ documentCodes := by
    intro h
    unfold measureFindings at h
    split at h
    · simp only [boundError, List.mem_append, List.mem_flatMap, mem_demand,
        Finding.error.injEq] at h
      rcases h with ⟨-, -, -, rfl⟩ | ⟨-, -, -, rfl⟩ <;> simp [documentCodes]
    · simp only [boundError, List.mem_append, List.mem_flatMap, mem_demand,
        Finding.error.injEq] at h
      rcases h with (h | ⟨-, -, -, rfl⟩) | ⟨-, -, -, rfl⟩
      · exact hlength _ _ _ h
      · simp [documentCodes]
      · simp [documentCodes]
    · exact hlength _ _ _ h
    · exact absurd h List.not_mem_nil
  have henum : .error e ∈ enumFindings slotKey slotPath slot value → e.code ∈ documentCodes := by
    intro h
    unfold enumFindings at h
    split at h
    · exact absurd h List.not_mem_nil
    · split_ifs at h
      · exact absurd h List.not_mem_nil
      · rcases List.mem_cons.mp h with h | h
        · split at h
          · cases h
          · rw [Finding.error.injEq] at h
            simp [h, documentCodes]
        · simp at h
  unfold validateSlotValue at h
  simp only [List.mem_append, List.mem_flatMap, mem_demand, Finding.error.injEq] at h
  rcases h with ((⟨-, -, -, rfl⟩ | h) | ⟨-, -, -, rfl⟩) | h
  · simp [documentCodes]
  · exact henum h
  · simp [documentCodes]
  · exact hmeasure h

/-- An error about a value as a node has one of the codes. -/
theorem code_of_mem_childFindings {node : NodeSchema} {path : JsString} {value : Option JsValue}
    {e : ValidationError} (h : .error e ∈ childFindings node path value) :
    e.code ∈ documentCodes := by
  unfold childFindings mappingError at h
  split at h
  · split_ifs at h <;> simp at h
  · exact absurd h List.not_mem_nil
  · split_ifs at h
    · rw [List.mem_singleton, Finding.error.injEq] at h
      simp [h, documentCodes]
    · rw [mem_demand, Finding.error.injEq] at h
      simp [h.2, documentCodes]

/-- An error in the mapping of a place has one of the codes. -/
theorem Place.code_of_mem_own {place : Place} {path : JsString} {members : Record JsValue}
    {e : ValidationError} (h : .error e ∈ place.own regExpTest input path members) :
    e.code ∈ documentCodes := by
  match place with
  | .items node =>
    simp only [Place.own, itemFindings, mappingError, List.mem_flatMap, List.mem_append, mem_demand,
      Finding.error.injEq] at h
    obtain ⟨-, -, ⟨-, rfl⟩ | ⟨-, rfl⟩⟩ := h <;> simp [documentCodes]
  | .body node =>
    unfold Place.own validateSlots at h
    rcases List.mem_append.mp h with h | h
    · rcases List.mem_append.mp h with h | h
      · obtain ⟨⟨key, slot⟩, -, h⟩ := List.mem_flatMap.mp h
        unfold validateSlot at h
        simp only at h
        split at h
        · split at h <;> simp [mem_demand] at h
        · rcases List.mem_append.mp h with h | h
          · exact code_of_mem_validateSlotValue regExpTest h
          · simp [mem_demand] at h
      · obtain ⟨⟨key, child⟩, -, h⟩ := List.mem_flatMap.mp h
        exact code_of_mem_childFindings h
    · unfold validateUnexpectedKeys at h
      split_ifs at h
      · exact absurd h List.not_mem_nil
      · split at h
        · exact absurd h List.not_mem_nil
        · simp only [List.mem_flatMap, mem_demand, Finding.error.injEq] at h
          obtain ⟨-, -, -, rfl⟩ := h
          simp [documentCodes]

/-- An error in a document has one of the codes. -/
theorem code_of_mem_documentFindings {e : ValidationError}
    (h : .error e ∈ documentFindings regExpTest input) : e.code ∈ documentCodes := by
  rcases mem_documentFindings regExpTest input h with ⟨e', he, hcode⟩ | ⟨node, path, value, hmem⟩ |
    ⟨place, path, members, -, hown⟩
  · obtain rfl := Finding.error.inj he
    rcases List.mem_cons.mp hcode with hcode | hcode
    · simp [hcode, documentCodes]
    · simp [List.mem_singleton.mp hcode, documentCodes]
  · exact code_of_mem_childFindings hmem
  · exact Place.code_of_mem_own regExpTest input hown

/-! ## What is thrown -/

/-- A value outside an enumeration one of whose items has no text, so that the message
about the value cannot be made. -/
def SlotSchema.Unprintable (slot : SlotSchema) (value : JsValue) : Prop :=
  ∃ allowed, slot.enum = some allowed ∧ (allowed.any fun item => isYValueEqual item value) = false ∧
    ∃ item ∈ allowed, elementText item = none

/-- The walk reaches a value outside such an enumeration. -/
def ValidationInput.Unprintable : Prop :=
  ∃ place members key slot value, input.Reaches place members ∧ place.slot key = some slot ∧
    Record.get members key = some value ∧ slot.Unprintable value

/-- Nothing is read of a list exactly when nothing is read of one of its items. -/
theorem mapM_eq_none_iff {S T : Type} {f : S → Option T} {items : List S} :
    items.mapM f = none ↔ ∃ item ∈ items, f item = none := by
  induction items with
  | nil => simp
  | cons item items ih =>
    rw [List.mapM_cons]
    cases hitem : f item with
    | none => simp [hitem]
    | some value =>
      cases hitems : items.mapM f with
      | none =>
        obtain ⟨other, hmem, hother⟩ := ih.mp hitems
        simp only [Option.bind_eq_bind, Option.bind_some, Option.bind_none, true_iff]
        exact ⟨other, List.mem_cons_of_mem _ hmem, hother⟩
      | some values =>
        have hsome : ∀ other ∈ items, f other ≠ none := fun other hmem hother => by
          simp [ih.mpr ⟨other, hmem, hother⟩] at hitems
        simp only [Option.bind_eq_bind, Option.bind_some, Option.pure_def, reduceCtorEq,
          List.mem_cons, exists_eq_or_imp, hitem, false_or, false_iff, not_exists, not_and]
        exact hsome

/-- What is thrown in checking the value of a slot. -/
theorem thrown_mem_validateSlotValue {slotKey slotPath : JsString} {slot : SlotSchema}
    {value : JsValue} {message : JsString} :
    .thrown message ∈ validateSlotValue regExpTest slotKey slotPath slot value ↔
      slot.Unprintable value ∧ message = js "Cannot convert object to primitive value" := by
  have hmeasure : .thrown message ∉ measureFindings regExpTest slotKey slotPath slot value := by
    unfold measureFindings lengthFindings boundError
    split <;> simp [mem_demand]
  have henum : .thrown message ∈ enumFindings slotKey slotPath slot value ↔
      slot.Unprintable value ∧ message = js "Cannot convert object to primitive value" := by
    unfold enumFindings SlotSchema.Unprintable
    cases hallowed : slot.enum with
    | none => simp
    | some allowed =>
      simp only [Option.some.injEq, exists_eq_left']
      split_ifs with hany
      · simp [hany]
      · rw [← mapM_eq_none_iff]
        cases htexts : allowed.mapM elementText <;> simp [hany]
  unfold validateSlotValue
  simp only [List.mem_append, hmeasure, or_false, henum]
  simp [mem_demand]

/-- What is thrown in the mapping of a place. -/
theorem Place.thrown_mem_own {place : Place} {path : JsString} {members : Record JsValue}
    {message : JsString} :
    .thrown message ∈ place.own regExpTest input path members ↔
      (∃ key slot value, place.slot key = some slot ∧ Record.get members key = some value ∧
        slot.Unprintable value) ∧ message = js "Cannot convert object to primitive value" := by
  match place with
  | .items node =>
    simp [Place.own, itemFindings, mem_demand, mappingError, Place.slot]
  | .body node =>
    have hchild : ∀ (child : NodeSchema) (path : JsString) (value : Option JsValue),
        .thrown message ∉ childFindings child path value := by
      intro child path value
      unfold childFindings mappingError
      split
      · split_ifs <;> simp
      · simp
      · split_ifs <;> simp [mem_demand]
    have hkeys : .thrown message ∉
        validateUnexpectedKeys input path node.head node.children members := by
      unfold validateUnexpectedKeys
      split_ifs
      · simp
      · split <;> simp [mem_demand]
    have hslot : ∀ (required : Bool) (key : JsString) (slot : SlotSchema) (value : Option JsValue),
        .thrown message ∈ validateSlot regExpTest input path required key slot value ↔
          ∃ given, value = some given ∧ .thrown message ∈
            validateSlotValue regExpTest key (joinPath path key) slot given := by
      intro required key slot value
      unfold validateSlot
      split
      · split <;> simp [mem_demand]
      · simp [mem_demand]
    unfold Place.own validateSlots
    simp only [List.mem_append, hkeys, or_false, List.mem_flatMap, hchild, and_false, exists_false,
      hslot, thrown_mem_validateSlotValue]
    constructor
    · rintro ⟨⟨key, slot⟩, hmem, value, hvalue, hunprintable, hmessage⟩
      exact ⟨⟨key, slot, value, Record.mem_entries.mp hmem, hvalue, hunprintable⟩, hmessage⟩
    · rintro ⟨⟨key, slot, value, hslot, hvalue, hunprintable⟩, hmessage⟩
      exact ⟨(key, slot), Record.mem_entries.mpr hslot, value, hvalue, hunprintable, hmessage⟩

/-- Something is thrown in the document exactly when the walk reaches a value outside an
enumeration without a text. -/
theorem exists_thrown_mem_documentFindings :
    (∃ message, .thrown message ∈ documentFindings regExpTest input) ↔ input.Unprintable := by
  constructor
  · rintro ⟨message, h⟩
    rcases mem_documentFindings regExpTest input h with ⟨e, he, -⟩ | ⟨node, path, value, hmem⟩ |
      ⟨place, path, members, hreaches, hown⟩
    · cases he
    · unfold childFindings mappingError at hmem
      split at hmem
      · split_ifs at hmem <;> simp at hmem
      · simp at hmem
      · split_ifs at hmem <;> simp [mem_demand] at hmem
    · obtain ⟨⟨key, slot, value, hslot, hvalue, hunprintable⟩, -⟩ :=
        (Place.thrown_mem_own regExpTest input).mp hown
      exact ⟨place, members, key, slot, value, hreaches, hslot, hvalue, hunprintable⟩
  · rintro ⟨place, members, key, slot, value, hreaches, hslot, hvalue, hunprintable⟩
    obtain ⟨path, hfound⟩ := mem_documentFindings_of_reaches regExpTest input hreaches
    exact ⟨_, hfound _ ((Place.thrown_mem_own regExpTest input).mpr
      ⟨⟨key, slot, value, hslot, hvalue, hunprintable⟩, rfl⟩)⟩

end

end T3x.Yschema
