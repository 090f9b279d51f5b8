import T3x.Yschema.EditOutcome

/-!
# Commands compile to exact edits

The operations that a command compiles to apply to the schema as the object it is, and a
schema that is read of what they give is the base but for the element that the command names.
That is so unless the command makes the compiler clone what a record inherits: then nothing
is compiled, and the command is not refused as an invalid one either.
-/

namespace T3x.Yschema

open Js T3x.Run T3x.Yops

variable {issueMessage : JsValue → JsString} {regExpError : JsString → Option JsString}
  {sha256 : JsString → JsString} {baseInput : JsValue} {base : YSchema}
  {command : WorkspaceSchemaEditCommand}

/-! ## Putting a node -/

/-- What becomes of putting a node at the root. -/
theorem outcome_putRootNode (hbase : IsBase regExpError base) {nodePath key : JsString}
    {definition : JsValue} (hpath : isPath nodePath = true)
    (hsplit : split (unit '/') nodePath = [key]) :
    Outcome regExpError base (.putNode nodePath definition)
      (assertThenSet (nodeYOpsPath [key]) (memberValue NodeSchema.toObject base.nodes key)
        definition) := by
  obtain ⟨-, hkeys⟩ := keys_of_isPath hpath
  rw [hsplit] at hkeys
  have hset : setRecursive definition (nodeSegments [key]) base.value =
      .ok (replaceAt (.obj (Record.setOwn (Record.mapValues NodeSchema.value base.nodes) key
        definition)) [.key (js "nodes")] base.value) := by
    have hnodes : resolvePathSegments base.value [.key (js "nodes")] =
        some (nodesValue base.nodes) := by
      rw [resolvePathSegments_cons, select_nodes]
      rfl
    exact (setRecursive_append_eq_ok_iff hnodes rfl).mpr ⟨_, rfl, rfl⟩
  refine outcome_assertThenSet ?_ (nodeYOpsPath_ne_nil _)
    (tryParsePath_nodeYOpsPath (List.cons_ne_nil _ _) hkeys) (editable_nodeSegments _) ?_ hset
    fun schema hschema => ?_
  · rw [memberValue_eq_inherited_iff]
    simp [ReadsInherited, hpath, hsplit, findNode, resolveNodeFrom]
  · rw [join_memberValue, nodeSegments, resolvePathSegments_cons, select_nodes, Option.bind_some,
      NodeSchema.toObject_eq]
    simp [belowNodes, resolvePathSegments, PathSegment.select, nodesValue]
  · rw [replaceAt_cons (select_nodes base)] at hschema
    obtain ⟨hmembers, hschema⟩ := read_nodes hbase hschema
    obtain ⟨node, context, hnode, heq⟩ := eq_setOwn_of_normalizeMembers hbase.nodes.nodup
      (fun e he => (hbase.nodes.isRead e he).settled) hmembers
    refine ⟨node, context, hnode, ?_⟩
    rw [hschema, heq, hsplit]
    rfl

/-- The path to a node below another one. -/
theorem nodeSegments_concat {init : List JsString} (hne : init ≠ []) (key : JsString) :
    nodeSegments (init ++ [key]) = nodeSegments init ++ [.key (js "children"), .key key] := by
  obtain ⟨first, rest, rfl⟩ := List.exists_cons_of_ne_nil hne
  rw [nodeSegments, belowNodes_concat]
  rfl

/-- Changing the record below a node is putting the node with its children changed. -/
theorem changeAt_findNode {init : List JsString} {node : NodeSchema}
    (change : Record NodeSchema → JsString → Record NodeSchema) (key : JsString)
    (h : findNode base init = some (some node)) :
    changeAt change (init ++ [key]) base.nodes =
      putNodeAt (.mk node.head (some (.declared (change (Children.nodes node.children) key)))) init
        base.nodes := by
  cases init with
  | nil => cases h
  | cons first rest => exact changeAt_concat change key h

/-- The nodes that are looked up where a node is put. -/
theorem readsInherited_putNode_iff {nodePath key : JsString} {definition : JsValue}
    {init : List JsString} (hpath : isPath nodePath = true)
    (hsplit : split (unit '/') nodePath = init ++ [key]) :
    ReadsInherited base (.putNode nodePath definition) ↔
      findNode base (init ++ [key]) = some none ∨ findNode base init = some none := by
  simp only [ReadsInherited, hpath, hsplit, List.dropLast_concat, true_and]

/-- A node that is found is not the empty path. -/
theorem ne_nil_of_findNode {keys : List JsString} {found : Option NodeSchema}
    (h : findNode base keys = some found) : keys ≠ [] := by
  rintro rfl
  cases h

/-- What becomes of putting a node below a node that declares children. -/
theorem outcome_putChildNode (hbase : IsBase regExpError base) {nodePath key : JsString}
    {definition : JsValue} {init : List JsString} {head : NodeHead}
    {nodes : List (JsString × NodeSchema)} (hpath : isPath nodePath = true)
    (hsplit : split (unit '/') nodePath = init ++ [key])
    (hparent : findNode base init = some (some (.mk head (some (.declared nodes))))) :
    Outcome regExpError base (.putNode nodePath definition)
      (assertThenSet (nodeYOpsPath (init ++ [key])) (memberValue NodeSchema.toObject nodes key)
        definition) := by
  obtain ⟨-, hkeys⟩ := keys_of_isPath hpath
  rw [hsplit] at hkeys
  have hne := ne_nil_of_findNode hparent
  have hread := isRead_of_findNode hbase hparent
  have hresolve := resolve_nodeSegments hparent
  have hobject : isObject (NodeSchema.mk head (some (.declared nodes))).value = true := by
    rw [NodeSchema.value_eq]
    rfl
  have hchildren : (PathSegment.key (js "children")).select
      (NodeSchema.mk head (some (.declared nodes))).value = some (nodesValue nodes) := by
    rw [NodeSchema.value_eq]
    exact get_members_children _
  have hset : setRecursive definition (nodeSegments (init ++ [key])) base.value =
      .ok (replaceAt (.obj (Record.setOwn (NodeSchema.mk head (some (.declared nodes))).members
        (js "children") (.obj (Record.setOwn (Record.mapValues NodeSchema.value nodes) key
          definition)))) (nodeSegments init) base.value) := by
    rw [nodeSegments_concat hne]
    refine (setRecursive_append_eq_ok_iff hresolve hobject).mpr ⟨_, ?_, rfl⟩
    have hinner : resolvePathSegments (NodeSchema.mk head (some (.declared nodes))).value
        [.key (js "children")] = some (nodesValue nodes) := by
      rw [resolvePathSegments_cons, hchildren]
      rfl
    have hput := (setRecursive_append_eq_ok_iff hinner rfl).mpr
      ⟨_, (rfl : setRecursive definition [.key key] (nodesValue nodes) = .ok _), rfl⟩
    refine hput.trans ?_
    rw [replaceAt_cons hchildren, NodeSchema.value_eq]
    rfl
  refine outcome_assertThenSet ?_ (nodeYOpsPath_ne_nil _)
    (tryParsePath_nodeYOpsPath (by simp) hkeys) (editable_nodeSegments _) ?_ hset
    fun schema hschema => ?_
  · rw [memberValue_eq_inherited_iff, readsInherited_putNode_iff hpath hsplit, findNode_concat hne,
      hparent]
    simp
  · rw [join_memberValue, nodeSegments_concat hne, resolvePathSegments_append, hresolve,
      Option.bind_some, resolvePathSegments_cons, hchildren, NodeSchema.toObject_eq]
    simp [resolvePathSegments, PathSegment.select, nodesValue]
  · obtain ⟨updated, _, hupdated, rfl⟩ := read_replaced hbase hparent hschema
    rw [NodeSchema.members_eq] at hupdated
    obtain ⟨members, _, hmembers, rfl⟩ := hread.of_children hupdated
    obtain ⟨node, context, hnode, rfl⟩ := eq_setOwn_of_normalizeMembers hread.children.nodup
      (fun e he => (hread.children.isRead e he).settled) hmembers
    refine ⟨node, context, hnode, ?_⟩
    have hput : putNodeAt node (init ++ [key]) base.nodes = _ :=
      changeAt_findNode (fun nodes key => Record.setOwn nodes key node) key hparent
    rw [hsplit, hput]

/-- What becomes of putting a node. -/
theorem outcome_putNode (hbase : IsBase regExpError base) (nodePath : JsString)
    (definition : JsValue) :
    Outcome regExpError base (.putNode nodePath definition)
      (compilePutNode base nodePath definition) := by
  refine outcome_parseNodePath (fun h => h.1) fun hpath => ?_
  obtain ⟨hne, hkeys⟩ := keys_of_isPath hpath
  obtain ⟨init, key, hsplit⟩ : ∃ init key, split (unit '/') nodePath = init ++ [key] :=
    ⟨_, _, (List.dropLast_append_getLast hne).symm⟩
  have hreads : ReadsInherited base (.putNode nodePath definition) ↔ _ :=
    readsInherited_putNode_iff hpath hsplit
  simp only [hsplit, List.dropLast_concat, List.getLast?_concat, Option.getD_some]
  split_ifs with hinit
  · subst hinit
    exact outcome_putRootNode hbase hpath hsplit
  · have hconcat : findNode base (init ++ [key]) = _ := findNode_concat hinit key
    unfold requireNode
    cases hparent : findNode base init with
    | none =>
      refine .refused (fun h => ?_) _
      rw [hreads, hconcat, hparent] at h
      simp at h
    | some parent =>
      cases parent with
      | none => exact .inherited (hreads.mpr (.inr hparent))
      | some parent =>
        obtain ⟨head, children⟩ := parent
        rw [hparent] at hconcat
        have hnot : ¬ findNode base init = some none := by simp [hparent]
        match children with
        | some .any =>
          refine .refused (fun h => ?_) _
          rw [hreads, hconcat, hparent] at h
          simp at h
        | some (.declared nodes) => exact outcome_putChildNode hbase hpath hsplit hparent
        | none =>
          have hread := isRead_of_findNode hbase hparent
          refine outcome_replaceNode hbase (fun k hk => hkeys k ?_) hparent (fun h => ?_)
            fun updated context hupdated => ?_
          · rw [hsplit]
            exact List.mem_append_left _ hk
          · rw [hreads, hconcat, hparent] at h
            simp at h
          · rw [NodeSchema.members_eq] at hupdated
            obtain ⟨members, _, hmembers, rfl⟩ := hread.of_children hupdated
            obtain ⟨node, context, hnode, rfl⟩ := eq_setOwn_nil_of_normalizeMembers hmembers
            refine ⟨node, context, hnode, ?_⟩
            have hput : putNodeAt node (init ++ [key]) base.nodes = _ :=
              changeAt_findNode (fun nodes key => Record.setOwn nodes key node) key hparent
            rw [hsplit, hput]
            rfl

/-! ## Removing a node -/

/-- What becomes of removing a node at the root. -/
theorem outcome_removeRootNode (hbase : IsBase regExpError base) {nodePath key : JsString}
    {found : Option NodeSchema} (hpath : isPath nodePath = true)
    (hsplit : split (unit '/') nodePath = [key]) (hfind : findNode base [key] = some found) :
    Outcome regExpError base (.removeNode nodePath)
      (assertThenUnset (nodeYOpsPath [key]) (found.map NodeSchema.toObject)) := by
  obtain ⟨-, hkeys⟩ := keys_of_isPath hpath
  rw [hsplit] at hkeys
  have hnodes : resolvePathSegments base.value [.key (js "nodes")] =
      some (nodesValue base.nodes) := by
    rw [resolvePathSegments_cons, select_nodes]
    rfl
  have hparse : tryParsePath (nodeYOpsPath [key]) = .ok ([.key (js "nodes")] ++ [.key key]) :=
    tryParsePath_nodeYOpsPath (List.cons_ne_nil _ _) hkeys
  refine outcome_assertThenUnset ?_ (nodeYOpsPath_ne_nil _) hparse (editable_nodeSegments [key])
    ?_ ?_ fun schema (hschema : normalizeYSchemaObject regExpError (replaceAt
      (.obj (Record.erase (Record.mapValues NodeSchema.value base.nodes) key))
      [.key (js "nodes")] base.value) = .ok schema) => ?_
  · simp [ReadsInherited, hpath, hsplit, hfind]
  · intro hsome
    cases found with
    | none => cases hsome
    | some node =>
      rw [Option.map_some, NodeSchema.toObject_eq]
      exact resolve_nodeSegments hfind
  · intro hsome
    cases found with
    | none => cases hsome
    | some node =>
      refine (deleteRecursive_append_eq_some_iff hnodes (List.cons_ne_nil _ _)).mpr ⟨_, ?_, rfl⟩
      have hget := get_of_readMember (show readMember base.nodes key = some (some node) from hfind)
      simp [deleteRecursive, PathSegment.select, PathSegment.remove, nodesValue, hget]
  · rw [replaceAt_cons (select_nodes base)] at hschema
    obtain ⟨hmembers, hschema⟩ := read_nodes hbase hschema
    have heq := eq_erase_of_normalizeMembers hbase.nodes.nodup
      (fun e he => (hbase.nodes.isRead e he).settled) hmembers
    change schema = { base with nodes := removeNodeAt (split (unit '/') nodePath) base.nodes }
    rw [hschema, heq, hsplit]
    rfl

/-- What becomes of removing a node below another one. -/
theorem outcome_removeChildNode (hbase : IsBase regExpError base) {nodePath key : JsString}
    {init : List JsString} {head : NodeHead} {nodes : List (JsString × NodeSchema)}
    {found : Option NodeSchema} (hpath : isPath nodePath = true)
    (hsplit : split (unit '/') nodePath = init ++ [key])
    (hparent : findNode base init = some (some (.mk head (some (.declared nodes)))))
    (hfound : readMember nodes key = some found) :
    Outcome regExpError base (.removeNode nodePath)
      (assertThenUnset (nodeYOpsPath (init ++ [key])) (found.map NodeSchema.toObject)) := by
  obtain ⟨-, hkeys⟩ := keys_of_isPath hpath
  rw [hsplit] at hkeys
  have hne := ne_nil_of_findNode hparent
  have hread := isRead_of_findNode hbase hparent
  have hresolve := resolve_nodeSegments hparent
  have hsegments : nodeSegments (init ++ [key]) =
      (nodeSegments init ++ [.key (js "children")]) ++ [.key key] := by
    rw [nodeSegments_concat hne, List.append_assoc]
    rfl
  have hchildren : (PathSegment.key (js "children")).select
      (NodeSchema.mk head (some (.declared nodes))).value = some (nodesValue nodes) := by
    rw [NodeSchema.value_eq]
    exact get_members_children _
  have hfind : findNode base (init ++ [key]) = some found := by
    rw [findNode_concat hne, hparent]
    exact hfound
  have hparse := tryParsePath_nodeYOpsPath (List.append_ne_nil_of_right_ne_nil init
    (List.cons_ne_nil key [])) hkeys
  have heditable := editable_nodeSegments (init ++ [key])
  rw [hsegments] at hparse heditable
  refine outcome_assertThenUnset ?_ (nodeYOpsPath_ne_nil _) hparse heditable ?_ ?_
    fun schema (hschema : normalizeYSchemaObject regExpError (replaceAt
      (.obj (Record.setOwn (NodeSchema.mk head (some (.declared nodes))).members
      (js "children") (.obj (Record.erase (Record.mapValues NodeSchema.value nodes) key))))
      (nodeSegments init) base.value) = .ok schema) => ?_
  · simp [ReadsInherited, hpath, hsplit, hfind]
  · intro hsome
    cases found with
    | none => cases hsome
    | some node =>
      rw [Option.map_some, NodeSchema.toObject_eq, ← hsegments]
      exact resolve_nodeSegments hfind
  · intro hsome
    cases found with
    | none => cases hsome
    | some node =>
      rw [List.append_assoc]
      refine (deleteRecursive_append_eq_some_iff hresolve (by simp)).mpr ⟨_, ?_, rfl⟩
      have hget := get_of_readMember hfound
      have hinner : resolvePathSegments (NodeSchema.mk head (some (.declared nodes))).value
          [.key (js "children")] = some (nodesValue nodes) := by
        rw [resolvePathSegments_cons, hchildren]
        rfl
      refine (deleteRecursive_append_eq_some_iff hinner (List.cons_ne_nil (.key key) [])).mpr
        ⟨.obj (Record.erase (Record.mapValues NodeSchema.value nodes) key), ?_, ?_⟩
      · simp [deleteRecursive, PathSegment.select, PathSegment.remove, nodesValue, hget]
      · rw [replaceAt_cons hchildren, NodeSchema.value_eq]
        rfl
  · obtain ⟨updated, _, hupdated, rfl⟩ := read_replaced hbase hparent hschema
    rw [NodeSchema.members_eq] at hupdated
    obtain ⟨members, _, hmembers, rfl⟩ := hread.of_children hupdated
    obtain rfl := eq_erase_of_normalizeMembers hread.children.nodup
      (fun e he => (hread.children.isRead e he).settled) hmembers
    have hremove : removeNodeAt (init ++ [key]) base.nodes = _ :=
      changeAt_findNode Record.erase key hparent
    change _ = { base with nodes := removeNodeAt (split (unit '/') nodePath) base.nodes }
    rw [hsplit, hremove]

/-- What becomes of removing a node. -/
theorem outcome_removeNode (hbase : IsBase regExpError base) (nodePath : JsString) :
    Outcome regExpError base (.removeNode nodePath) (compileRemoveNode base nodePath) := by
  refine outcome_parseNodePath (fun h => h.1) fun hpath => ?_
  obtain ⟨hne, -⟩ := keys_of_isPath hpath
  obtain ⟨init, key, hsplit⟩ : ∃ init key, split (unit '/') nodePath = init ++ [key] :=
    ⟨_, _, (List.dropLast_append_getLast hne).symm⟩
  rw [hsplit]
  cases hfind : findNode base (init ++ [key]) with
  | none =>
    refine .refused (fun h => ?_) _
    rw [ReadsInherited, hsplit, hfind] at h
    cases h.2
  | some found =>
    by_cases hinit : init = []
    · subst hinit
      exact outcome_removeRootNode hbase hpath hsplit hfind
    · rw [findNode_concat hinit] at hfind
      split at hfind
      · next head nodes hparent => exact outcome_removeChildNode hbase hpath hsplit hparent hfind
      · cases hfind

/-! ## Slots -/

/-- The object of the fields of a node depends on the names of the slots that have to be there
under `requiredSlots` only, and on the slots under `slots` only. -/
theorem get_fields_of_ne {head head' : NodeHead} {children : Option (Children JsValue)}
    {key : JsString}
    (h : { head with slots := none, requiredSlots := none } =
      { head' with slots := none, requiredSlots := none })
    (hslots : key ≠ js "slots") (hrequired : key ≠ js "requiredSlots") :
    Record.get (present (head.fields children)) key =
      Record.get (present (head'.fields children)) key := by
  rw [NodeHead.mk.injEq] at h
  simp only [NodeHead.fields, present_cons, Record.get_append, get_optionalMember,
    if_neg hslots.symm, if_neg hrequired.symm, h]

/-- Whether a slot has to be there is what is said of it, and of the others what was. -/
theorem mem_requiredAfter {names : List JsString} {slot name : JsString} {required : Option Bool} :
    name ∈ requiredAfter names slot required ↔
      if name = slot ∧ required.isSome then required = some true else name ∈ names := by
  match required with
  | none => simp [requiredAfter]
  | some true =>
    by_cases hname : name = slot <;> simp [requiredAfter, hname]
  | some false =>
    by_cases hname : name = slot <;> simp [requiredAfter, hname]

/-- The names of the slots that have to be there, where there are names, after a slot is put. -/
def requiredSlotsAfter (node : NodeSchema) (slot : JsString) (required : Option Bool) :
    Option (List JsString) :=
  if required = none ∧ node.head.requiredSlots = none then none
  else some (requiredAfter (node.head.requiredSlots.getD []) slot required)

/-- The node with a slot put differs in the slots and in the names of those that have to be
there. -/
theorem putSlotValue_eq (node : NodeSchema) (slot : JsString) (definition : JsValue)
    (required : Option Bool) :
    ∃ raw, putSlotValue node slot definition required = .obj raw ∧
      Record.get raw (js "slots") = some (.obj (Record.setOwn (Record.mapValues SlotSchema.value
        (node.head.slots.getD [])) slot definition)) ∧
      ∀ key, key ≠ js "slots" → Record.get raw key =
        Record.get (present (NodeHead.fields
          { node.head with requiredSlots := requiredSlotsAfter node slot required }
          (mapChildren NodeSchema.value node.children))) key := by
  unfold putSlotValue requiredSlotsAfter
  rw [SlotSchema.toObject_eq]
  dsimp only
  split_ifs with hnone
  · refine ⟨_, rfl, by rw [Record.get_setOwn, if_pos rfl], fun key hkey => ?_⟩
    rw [Record.get_setOwn, if_neg hkey, NodeSchema.members_eq, ← hnone.2]
  · refine ⟨_, rfl, ?_, fun key hkey => ?_⟩
    · rw [Record.get_setOwn, if_neg (by decide), Record.get_setOwn, if_pos rfl]
    · rw [Record.get_setOwn]
      split_ifs with hrequired
      · rw [hrequired]
        exact (get_present (NodeHead.nodup_fields _ _) _ _ (by simp [NodeHead.fields, textsValue])).symm
      · rw [Record.get_setOwn, if_neg hkey, NodeSchema.members_eq]
        exact get_fields_of_ne rfl hkey hrequired

/-- What the node with a slot put is read as. -/
theorem putsSlot_of_normalizeNode {node updated : NodeSchema} {slot : JsString}
    {definition : JsValue} {required : Option Bool} {context : JsString}
    (hread : node.IsRead regExpError)
    (h : normalizeNode regExpError (putSlotValue node slot definition required) context =
      .ok updated) :
    ∃ slotSchema context, normalizeSlot regExpError definition context = .ok slotSchema ∧
      PutsSlot node slot slotSchema required updated := by
  obtain ⟨raw, hraw, hslots, hothers⟩ := putSlotValue_eq node slot definition required
  rw [hraw] at h
  obtain ⟨slots, _, hmembers, rfl⟩ := hread.of_slots hslots hothers h
  obtain ⟨slotSchema, context, hslot, rfl⟩ := eq_setOwn_of_normalizeMembers hread.nodup_slots
    (fun e _ context w hw => eq_of_normalizeSlot_value hw) hmembers
  refine ⟨slotSchema, context, hslot, rfl, fun name => ?_, rfl, rfl⟩
  change name ∈ (requiredSlotsAfter node slot required).getD [] ↔ _
  unfold requiredSlotsAfter
  split_ifs with hnone hname hname
  · rw [hnone.1] at hname
    cases hname.2
  · rw [hnone.2]
  · rw [Option.getD_some, mem_requiredAfter, if_pos hname]
  · rw [Option.getD_some, mem_requiredAfter, if_neg hname]

/-- What becomes of putting a slot. -/
theorem outcome_putSlot (hbase : IsBase regExpError base) (nodePath slot : JsString)
    (definition : JsValue) (required : Option Bool) :
    Outcome regExpError base (.putSlot nodePath slot definition required)
      (compilePutSlot base nodePath slot definition required) := by
  have hreads : ReadsInherited base (.putSlot nodePath slot definition required) ↔
      isPath nodePath = true ∧ isKey slot = true ∧
        findNode base (split (unit '/') nodePath) = some none := Iff.rfl
  refine outcome_parseNodePath (fun h => (hreads.mp h).1) fun hpath => ?_
  obtain ⟨-, hkeys⟩ := keys_of_isPath hpath
  unfold requireNode
  cases hfind : findNode base (split (unit '/') nodePath) with
  | none =>
    refine .refused (fun h => ?_) _
    rw [hreads, hfind] at h
    cases h.2.2
  | some found =>
    unfold assertCommandKey
    by_cases hslot : isKey slot = true
    · rw [if_pos hslot]
      cases found with
      | none => exact .inherited (hreads.mpr ⟨hpath, hslot, hfind⟩)
      | some node =>
        refine outcome_replaceNode hbase hkeys hfind (fun h => ?_) fun updated context hupdated => ?_
        · rw [hreads, hfind] at h
          cases h.2.2
        · obtain ⟨slotSchema, context', hslotSchema, hputs⟩ :=
            putsSlot_of_normalizeNode (isRead_of_findNode hbase hfind) hupdated
          exact ⟨node, slotSchema, context', updated, hfind, hslotSchema, hputs, rfl⟩
    · rw [if_neg hslot]
      exact .refused (fun h => hslot (hreads.mp h).2.1) _

/-- What the node without a slot is read as. -/
theorem eq_removeSlot_of_normalizeNode {node updated : NodeSchema} {slot : JsString}
    {slots : Record SlotSchema} {context : JsString} (hread : node.IsRead regExpError)
    (hslots : node.head.slots = some slots)
    (h : normalizeNode regExpError (removeSlotValue node slots slot) context = .ok updated) :
    updated = removeSlot node slot := by
  have hnodup := hread.nodup_slots
  rw [hslots] at hnodup
  obtain ⟨raw, hraw, hslotsRaw, hothers⟩ : ∃ raw, removeSlotValue node slots slot = .obj raw ∧
      Record.get raw (js "slots") = some (.obj (Record.erase (Record.mapValues SlotSchema.value
        slots) slot)) ∧
      ∀ key, key ≠ js "slots" → Record.get raw key =
        Record.get (present (NodeHead.fields { node.head with
            requiredSlots := node.head.requiredSlots.map fun names =>
              names.filter fun name => decide (name ≠ slot) }
          (mapChildren NodeSchema.value node.children))) key := by
    unfold removeSlotValue
    rw [SlotSchema.toObject_eq]
    dsimp only
    cases hrequiredSlots : node.head.requiredSlots with
    | none =>
      refine ⟨_, rfl, by rw [Record.get_setOwn, if_pos rfl], fun key hkey => ?_⟩
      rw [Record.get_setOwn, if_neg hkey, NodeSchema.members_eq, Option.map_none,
        ← hrequiredSlots]
    | some names =>
      refine ⟨_, rfl, ?_, fun key hkey => ?_⟩
      · rw [Record.get_setOwn, if_neg (by decide), Record.get_setOwn, if_pos rfl]
      · rw [Record.get_setOwn]
        split_ifs with hrequired
        · rw [hrequired]
          exact (get_present (NodeHead.nodup_fields _ _) _ _
            (by simp [NodeHead.fields, textsValue])).symm
        · rw [Record.get_setOwn, if_neg hkey, NodeSchema.members_eq]
          exact get_fields_of_ne rfl hkey hrequired
  rw [hraw] at h
  obtain ⟨slots', _, hmembers, rfl⟩ := hread.of_slots hslotsRaw hothers h
  rw [eq_erase_of_normalizeMembers hnodup
    (fun e _ context w hw => eq_of_normalizeSlot_value hw) hmembers, removeSlot, hslots]
  rfl

/-- What becomes of removing a slot. -/
theorem outcome_removeSlot (hbase : IsBase regExpError base) (nodePath slot : JsString) :
    Outcome regExpError base (.removeSlot nodePath slot) (compileRemoveSlot base nodePath slot) := by
  have hreads : ¬ ReadsInherited base (.removeSlot nodePath slot) := id
  refine outcome_parseNodePath (fun h => absurd h hreads) fun hpath => ?_
  obtain ⟨-, hkeys⟩ := keys_of_isPath hpath
  unfold requireNode
  cases hfind : findNode base (split (unit '/') nodePath) with
  | none => exact .refused hreads _
  | some found =>
    unfold assertCommandKey
    by_cases hslot : isKey slot = true
    · rw [if_pos hslot]
      cases found with
      | none => exact .refused hreads _
      | some node =>
        simp only [bind, Except.bind]
        cases hslots : node.head.slots with
        | none => exact .refused hreads _
        | some slots =>
          dsimp only
          split_ifs with hhas
          · exact .refused hreads _
          · refine outcome_replaceNode hbase hkeys hfind hreads fun updated context hupdated => ?_
            refine ⟨node, hfind, ?_⟩
            rw [eq_removeSlot_of_normalizeNode (isRead_of_findNode hbase hfind) hslots hupdated]
    · rw [if_neg hslot]
      exact .refused hreads _

/-! ## Relation types -/

/-- A machine-safe name behind the name of a root is read as a path of two keys. -/
theorem tryParsePath_relationType {key : JsString} (h : isKey key = true) :
    tryParsePath (js "relationTypes/" ++ key) =
      .ok ([.key (js "relationTypes")] ++ [.key key]) := by
  have htext : js "relationTypes/" ++ key =
      formatPathSegments ([.key (js "relationTypes")] ++ [.key key]) := by
    have hname : formatPathSegment (.key (js "relationTypes")) = js "relationTypes" := by decide
    simp only [List.cons_append, List.nil_append, formatPathSegments, List.map_cons, List.map_nil,
      join_cons_cons, join_singleton, hname, formatPathSegment_of_isKey h]
    rfl
  rw [htext]
  exact tryParsePath_format (by simp [PathSegment.WellFormed])

/-- The path of a relation type is one of an editable root. -/
theorem editable_relationTypes (rest : List PathSegment) :
    Editable (.key (js "relationTypes") :: rest) :=
  ⟨"relationTypes", by simp [editableRoots], rest, rfl⟩

/-- The relation types stand under their name. -/
theorem select_relationTypes (base : YSchema) :
    (PathSegment.key (js "relationTypes")).select base.value =
      base.relationTypes.map fun types =>
        .obj (Record.mapValues RelationTypeSchema.value types) :=
  get_present base.nodup_fields "relationTypes" _ (by simp [YSchema.fields])

/-- What becomes of putting a relation type. -/
theorem outcome_putRelationType (hbase : IsBase regExpError base) (relationType : JsString)
    (definition : JsValue) :
    Outcome regExpError base (.putRelationType relationType definition)
      (compilePutRelationType base relationType definition) := by
  have hreads : ReadsInherited base (.putRelationType relationType definition) ↔
      isKey relationType = true ∧
        base.relationTypes.bind (readMember · relationType) = some none := Iff.rfl
  have hselect := select_relationTypes base
  have hnodup := hbase.types
  unfold compilePutRelationType assertCommandKey
  by_cases hkey : isKey relationType = true
  · rw [if_pos hkey]
    simp only [bind, Except.bind]
    cases htypes : base.relationTypes with
    | none =>
      rw [htypes] at hselect hreads
      have hparse : tryParsePath (js "relationTypes") = .ok [.key (js "relationTypes")] := by rfl
      refine outcome_assertThenSet (iff_of_false (by simp) (by rw [hreads]; simp))
        (List.cons_ne_nil _ _) hparse (editable_relationTypes []) ?_ rfl fun schema hschema => ?_
      · rw [resolvePathSegments_cons, hselect]
        rfl
      · obtain ⟨types, hmembers, hschema⟩ := read_relationTypes hbase hschema
        obtain ⟨typeSchema, context, hread, heq⟩ := eq_setOwn_nil_of_normalizeMembers hmembers
        refine ⟨typeSchema, context, hread, ?_⟩
        rw [hschema, heq, htypes]
        rfl
    | some types =>
      rw [htypes] at hselect hreads hnodup
      have hresolve : resolvePathSegments base.value [.key (js "relationTypes")] =
          some (.obj (Record.mapValues RelationTypeSchema.value types)) := by
        rw [resolvePathSegments_cons, hselect]
        rfl
      refine outcome_assertThenSet ?_ (List.cons_ne_nil _ _) (tryParsePath_relationType hkey)
        (editable_relationTypes _) ?_
        ((setRecursive_append_eq_ok_iff hresolve rfl).mpr ⟨_, rfl, rfl⟩)
        fun schema (hschema : normalizeYSchemaObject regExpError (replaceAt
          (.obj (Record.setOwn (Record.mapValues RelationTypeSchema.value types) relationType
          definition)) [.key (js "relationTypes")] base.value) = .ok schema) => ?_
      · rw [memberValue_eq_inherited_iff, hreads]
        simp [hkey]
      · rw [join_memberValue, resolvePathSegments_append, hresolve, RelationTypeSchema.toObject_eq]
        simp [resolvePathSegments, PathSegment.select]
      · rw [replaceAt_cons hselect] at hschema
        obtain ⟨types', hmembers, hschema⟩ := read_relationTypes hbase hschema
        obtain ⟨typeSchema, context, hread, heq⟩ := eq_setOwn_of_normalizeMembers hnodup
          (fun e _ context w hw => eq_of_normalizeRelationType_value hw) hmembers
        refine ⟨typeSchema, context, hread, ?_⟩
        rw [hschema, heq, htypes]
  · rw [if_neg hkey]
    exact .refused (fun h => hkey (hreads.mp h).1) _

/-- What becomes of removing a relation type. -/
theorem outcome_removeRelationType (hbase : IsBase regExpError base) (relationType : JsString) :
    Outcome regExpError base (.removeRelationType relationType)
      (compileRemoveRelationType base relationType) := by
  have hreads : ReadsInherited base (.removeRelationType relationType) ↔
      isKey relationType = true ∧
        base.relationTypes.bind (readMember · relationType) = some none := Iff.rfl
  have hselect := select_relationTypes base
  have hnodup := hbase.types
  unfold compileRemoveRelationType assertCommandKey
  by_cases hkey : isKey relationType = true
  · rw [if_pos hkey]
    simp only [bind, Except.bind]
    cases hexisting : base.relationTypes.bind (readMember · relationType) with
    | none => exact .refused (fun h => by rw [hreads, hexisting] at h; cases h.2) _
    | some existing =>
      obtain ⟨types, htypes, hmember⟩ := Option.bind_eq_some_iff.mp hexisting
      rw [htypes] at hselect hnodup
      have hresolve : resolvePathSegments base.value [.key (js "relationTypes")] =
          some (.obj (Record.mapValues RelationTypeSchema.value types)) := by
        rw [resolvePathSegments_cons, hselect]
        rfl
      refine outcome_assertThenUnset ?_ (List.cons_ne_nil _ _) (tryParsePath_relationType hkey)
        (editable_relationTypes _) ?_ ?_ fun schema (hschema : normalizeYSchemaObject regExpError
          (replaceAt (.obj (Record.erase (Record.mapValues RelationTypeSchema.value types)
          relationType)) [.key (js "relationTypes")] base.value) = .ok schema) => ?_
      · rw [hreads, hexisting]
        simp [hkey]
      · intro hsome
        cases existing with
        | none => cases hsome
        | some typeSchema =>
          rw [resolvePathSegments_append, hresolve, RelationTypeSchema.toObject_eq]
          simp [resolvePathSegments, PathSegment.select, get_of_readMember hmember]
      · intro hsome
        cases existing with
        | none => cases hsome
        | some typeSchema =>
          refine (deleteRecursive_append_eq_some_iff hresolve (List.cons_ne_nil _ _)).mpr
            ⟨_, ?_, rfl⟩
          simp [deleteRecursive, PathSegment.select, PathSegment.remove, get_of_readMember hmember]
      · rw [replaceAt_cons hselect] at hschema
        obtain ⟨types', hmembers, hschema⟩ := read_relationTypes hbase hschema
        have heq := eq_erase_of_normalizeMembers hnodup
          (fun e _ context w hw => eq_of_normalizeRelationType_value hw) hmembers
        change schema = _
        rw [hschema, heq, htypes]
        rfl
  · rw [if_neg hkey]
    exact .refused (fun h => hkey (hreads.mp h).1) _

/-! ## Rules -/

/-- What becomes of replacing the rules. -/
theorem outcome_replaceRules (hbase : IsBase regExpError base) {rules rules' : List YSchemaRuleSchema}
    (hrules : base.rules = some rules) (hreads : ¬ ReadsInherited base command)
    (hedit : IsEdit regExpError base command { base with rules := some rules' }) :
    Outcome regExpError base command
      (assertThenSet (js "rules") (some (some (rulesValue rules))) (rulesValue rules')) := by
  have hselect : (PathSegment.key (js "rules")).select base.value = some (rulesValue rules) := by
    refine (get_present base.nodup_fields "rules" _ (by simp [YSchema.fields]; rfl)).trans ?_
    rw [hrules, rulesValue, YSchemaRuleSchema.toObject_eq]
    rfl
  have hparse : tryParsePath (js "rules") = .ok [.key (js "rules")] := by rfl
  refine outcome_assertThenSet (iff_of_false (by simp) hreads) (List.cons_ne_nil _ _) hparse
    ⟨"rules", by simp [editableRoots], [], rfl⟩ ?_ rfl fun schema hschema => ?_
  · rw [resolvePathSegments_cons, hselect]
    rfl
  · rw [read_rules hbase hschema]
    exact hedit

/-- What becomes of putting a rule. -/
theorem outcome_putRule (hbase : IsBase regExpError base) (rule : YSchemaRuleSchema) :
    Outcome regExpError base (.putRule rule) (compilePutRule base rule) := by
  have hreads : ¬ ReadsInherited base (.putRule rule) := id
  obtain ⟨rules, hrules⟩ := hbase.rules
  unfold compilePutRule assertCommandKey
  split_ifs with hkey
  · change Outcome regExpError base _ (if _ then _ else _)
    rw [hrules, Option.getD_some]
    split_ifs
    · exact .refused hreads _
    · refine outcome_replaceRules hbase hrules hreads ?_
      change _ = { base with rules := base.rules.map (putRuleAfter · rule) }
      rw [hrules]
      rfl
  · exact .refused hreads _

/-- What becomes of removing a rule. -/
theorem outcome_removeRule (hbase : IsBase regExpError base) (ruleId : JsString) :
    Outcome regExpError base (.removeRule ruleId) (compileRemoveRule base ruleId) := by
  have hreads : ¬ ReadsInherited base (.removeRule ruleId) := id
  obtain ⟨rules, hrules⟩ := hbase.rules
  unfold compileRemoveRule assertCommandKey
  split_ifs with hkey
  · change Outcome regExpError base _ (if _ then _ else _)
    rw [hrules, Option.getD_some]
    split_ifs
    · refine outcome_replaceRules hbase hrules hreads ?_
      rw [IsEdit, hrules]
      rfl
    · exact .refused hreads _
  · exact .refused hreads _

/-! ## Commands -/

/-- What becomes of a command on a schema that is read. -/
theorem outcome_compileOn (hbase : IsBase regExpError base) (command : WorkspaceSchemaEditCommand) :
    Outcome regExpError base command (compileOn base command) := by
  cases command with
  | putNode nodePath definition => exact outcome_putNode hbase nodePath definition
  | removeNode nodePath => exact outcome_removeNode hbase nodePath
  | putSlot nodePath slot definition required =>
    exact outcome_putSlot hbase nodePath slot definition required
  | removeSlot nodePath slot => exact outcome_removeSlot hbase nodePath slot
  | putRelationType relationType definition =>
    exact outcome_putRelationType hbase relationType definition
  | removeRelationType relationType => exact outcome_removeRelationType hbase relationType
  | putRule rule => exact outcome_putRule hbase rule
  | removeRule ruleId => exact outcome_removeRule hbase ruleId

/-- A command compiles exactly, or is refused as an invalid one, unless it makes the compiler
clone what a record inherits. -/
theorem compilesExactly_iff (issueMessage : JsValue → JsString)
    (regExpError : JsString → Option JsString) (sha256 : JsString → JsString) (baseInput : JsValue)
    (base : YSchema) (command : WorkspaceSchemaEditCommand)
    (hbase : normalizeYSchemaObject regExpError baseInput = .ok base) :
    CompilesExactly issueMessage regExpError sha256 baseInput base command ↔
      ¬ ReadsInherited base command := by
  have hcompile : compileWorkspaceSchemaEditCommand regExpError baseInput command =
      compileOn base command := by
    unfold compileWorkspaceSchemaEditCommand
    rw [deepClone_eq, hbase]
    rfl
  have houtcome := outcome_compileOn (isBase_of_normalizeYSchemaObject hbase) command
  unfold CompilesExactly
  rw [hcompile]
  generalize compileOn base command = compiled at houtcome
  cases houtcome with
  | inherited h => exact iff_of_false id (not_not.mpr h)
  | refused h message => exact iff_of_true rfl h
  | edits h hops hpath hrun hread =>
    exact iff_of_true (appliesExactly_of_run hbase hops hpath (hrun issueMessage) hread) h

/-- A schema without nodes. -/
def emptySchemaText : JsValue :=
  .obj [(js "yschema", .str (js "0.1")), (js "name", .str (js "plan")), (js "nodes", .obj [])]

/-- What a schema without nodes is read as. -/
def emptySchema : YSchema where
  name := js "plan"
  strict := some false
  nodes := []
  rules := some []

/-- A node under a name of its own is put. -/
theorem compilesExactly_putStep :
    CompilesExactly (fun _ => []) (fun _ => none) id emptySchemaText emptySchema
      (.putNode (js "step") (.obj [])) :=
  (compilesExactly_iff _ _ _ _ _ _ rfl).mpr (by
    rintro ⟨-, h | h⟩
    · cases h
    · cases h)

/-- A node under the name of what every record inherits is neither put nor refused as an invalid
command. -/
theorem not_compilesExactly_constructor : ¬ ∀ (baseInput : JsValue) (base : YSchema)
    (command : WorkspaceSchemaEditCommand),
    normalizeYSchemaObject (fun _ => none) baseInput = .ok base →
      CompilesExactly (fun _ => []) (fun _ => none) id baseInput base command := by
  intro h
  have hread : normalizeYSchemaObject (fun _ => none) emptySchemaText = .ok emptySchema := rfl
  exact h emptySchemaText emptySchema (.putNode (js "constructor") (.obj [])) hread

end T3x.Yschema
