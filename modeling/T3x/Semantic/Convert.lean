import T3x.Semantic.Forest
import T3x.Yops.Filling

/-!
# Topics and documents

A forest of topics becomes a document: a topic becomes a mapping that holds its
slots and, under their keys, its subtopics. Reading a document back takes the
members that are mappings for subtopics and all others for slots.
-/

namespace T3x.Semantic

open Js Yops

/-! ## The conversions -/

/-- `isPlainObject(v)`. -/
def isPlainObject : JsValue → Bool
  | .obj _ => true
  | _ => false

mutual

/-- `treeNodeToYValue(node)`: the members of the mapping. -/
def treeNodeToYValue : TreeNode JsValue → Record JsValue
  | .node _ slots children => assignAll [] (Record.entries slots ++ childValues children)

/-- The assignments of the subtopics under their keys. -/
def childValues : List (TreeNode JsValue) → Record JsValue
  | [] => []
  | child :: children => (child.key, .obj (treeNodeToYValue child)) :: childValues children

end

/-- `treesToYValue(trees)`. -/
def treesToYValue (trees : List (TreeNode JsValue)) : JsValue :=
  .obj (assignAll [] (childValues trees))

mutual

/-- `yValueToTreeNode(key, value)`. -/
def yValueToTreeNode : JsValue → JsString → TreeNode JsValue
  | .obj members, key =>
    let entries := Record.entries (memberNodes members)
    .node key
      (assignAll [] (entries.filterMap fun e =>
        if isPlainObject e.2.1 then none else some (e.1, e.2.1)))
      (entries.filterMap fun e => if isPlainObject e.2.1 then some e.2.2 else none)
  | _, key => .node key [] []

/-- The members of a mapping, each with the topic that it is if it is one. -/
def memberNodes : List (JsString × JsValue) → Record (JsValue × TreeNode JsValue)
  | [] => []
  | (key, value) :: members => (key, value, yValueToTreeNode value key) :: memberNodes members

end

/-- `yvalueToTrees(doc)`. -/
def yvalueToTrees : JsValue → List (TreeNode JsValue)
  | .obj members => (Record.entries members).map fun e => yValueToTreeNode e.2 e.1
  | _ => []

/-- The assignments of the subtopics, one for each. -/
theorem childValues_eq_map (trees : List (TreeNode JsValue)) :
    childValues trees = trees.map fun tree => (tree.key, .obj (treeNodeToYValue tree)) := by
  induction trees with
  | nil => rfl
  | cons tree trees ih => rw [childValues, ih, List.map_cons]

/-- The entries that count with their topics. -/
theorem entries_memberNodes (members : Record JsValue) :
    Record.entries (memberNodes members) =
      (Record.entries members).map fun e => (e.1, e.2, yValueToTreeNode e.2 e.1) := by
  induction members with
  | nil => rfl
  | cons e members ih =>
    obtain ⟨key, value⟩ := e
    rw [memberNodes, Record.entries, Record.entries, ih, List.map_cons, List.filter_map]
    rfl

/-- The topic that a mapping is. -/
theorem yValueToTreeNode_obj (members : Record JsValue) (key : JsString) :
    yValueToTreeNode (.obj members) key = .node key
      (assignAll [] ((Record.entries members).filter fun e => !isPlainObject e.2))
      (((Record.entries members).filter fun e => isPlainObject e.2).map fun e =>
        yValueToTreeNode e.2 e.1) := by
  rw [yValueToTreeNode]
  simp only [entries_memberNodes, List.filterMap_map]
  congr 1
  · congr 1
    rw [← List.filterMap_eq_filter]
    refine List.filterMap_congr fun e _ => ?_
    cases h : isPlainObject e.2 <;> simp [h, Option.guard]
  · rw [← List.filterMap_eq_map, List.filterMap_filter]
    rfl

/-! ## What distinct names are assigned -/

/-- The values under a name are as many as its occurrences. -/
theorem length_protoValues (entries : Record JsValue) :
    (protoValues entries).length = (entries.map Prod.fst).count Record.protoName := by
  induction entries with
  | nil => rfl
  | cons e entries ih =>
    rw [protoValues, List.filterMap_cons, List.map_cons, List.count_cons, ← ih]
    by_cases hkey : e.1 = Record.protoName <;> simp [hkey, protoValues]

/-- Assignments of distinct names define all of them but `__proto__`. -/
theorem get_assignAll_of_nodup {entries : Record JsValue} (h : (entries.map Prod.fst).Nodup)
    (key : JsString) :
    Record.get (assignAll [] entries) key =
      if key = Record.protoName then none else Record.get entries key := by
  have hcount := List.nodup_iff_count_le_one.mp h Record.protoName
  rw [← length_protoValues] at hcount
  rw [get_assignAll]
  by_cases hkey : key = Record.protoName
  · rw [if_pos hkey]
    by_cases hassigns : Assigns [] entries
    · rw [if_neg fun hnot => hnot.2 hassigns, hkey]
      refine get_proto_eq_none rfl ?_
      rcases hassigns with hown | hnil | hhidden
      · cases hown
      · exact hnil
      · -- one assignment at most goes to the accessor, and none before it
        have hdrop : (protoValues entries).dropLast = [] := by
          apply List.eq_nil_of_length_eq_zero
          rw [List.length_dropLast]
          omega
        rw [hdrop] at hhidden
        cases hhidden
    · exact if_pos ⟨hkey, hassigns⟩
  · rw [if_neg fun hnot => hkey hnot.1, if_neg hkey]
    exact Record.get_fromEntries h key

/-- The entries that assignments of distinct names leave, up to their order. -/
theorem entries_assignAll_perm {entries : Record JsValue} (h : (entries.map Prod.fst).Nodup) :
    (Record.entries (assignAll [] entries)).Perm
      (entries.filter fun e => decide (e.1 ≠ Record.protoName)) := by
  have hfilter : ((entries.filter fun e => decide (e.1 ≠ Record.protoName)).map Prod.fst).Nodup :=
    h.sublist (List.filter_sublist.map _)
  rw [← Record.entries_of_nodup hfilter]
  refine Record.entries_perm fun key => ?_
  rw [get_assignAll_of_nodup h]
  exact (Record.get_erase entries Record.protoName key).symm

/-! ## Trees that are alike up to order -/

/-- Two topics are alike up to the order of slots and subtopics. -/
inductive Alike : TreeNode JsValue → TreeNode JsValue → Prop
  | node {key : JsString} {slots slots' : Record JsValue}
      {children children' middle : List (TreeNode JsValue)}
      (hslots : ∀ name, Record.get slots name = Record.get slots' name)
      (hpairs : List.Forall₂ Alike children middle) (hperm : middle.Perm children') :
      Alike (.node key slots children) (.node key slots' children')

/-- Two forests are alike up to the order of topics, slots and subtopics. -/
def AlikeTrees (trees trees' : List (TreeNode JsValue)) : Prop :=
  ∃ middle, List.Forall₂ Alike trees middle ∧ middle.Perm trees'

/-- Topics that are alike have one key. -/
theorem Alike.key_eq {tree tree' : TreeNode JsValue} (h : Alike tree tree') :
    tree.key = tree'.key := by
  cases h with
  | node => rfl

/-! ## Trees that a document can hold -/

mutual

/-- A topic that a document can hold: its slots are no mappings and named otherwise than
its subtopics, all with names that differ. -/
def TreeNode.isConvertible : TreeNode JsValue → Bool
  | .node _ slots children =>
    decide ((slots.map Prod.fst ++ children.map TreeNode.key).Nodup) &&
      slots.all (fun e => !isPlainObject e.2) && allConvertible children

/-- All topics of a list can be held by a document. -/
def allConvertible : List (TreeNode JsValue) → Bool
  | [] => true
  | tree :: trees => tree.isConvertible && allConvertible trees

end

/-- Topics that a document can hold side by side. -/
def ConvertibleTrees (trees : List (TreeNode JsValue)) : Prop :=
  (trees.map TreeNode.key).Nodup ∧ allConvertible trees = true

instance (trees : List (TreeNode JsValue)) : Decidable (ConvertibleTrees trees) :=
  inferInstanceAs (Decidable (_ ∧ _))

/-- All topics of a list can be held exactly when each can. -/
theorem allConvertible_iff {trees : List (TreeNode JsValue)} :
    allConvertible trees = true ↔ ∀ tree ∈ trees, tree.isConvertible = true := by
  induction trees with
  | nil => simp [allConvertible]
  | cons tree trees ih => simp [allConvertible, ih]

mutual

/-- No key and no slot of a topic is named `__proto__`. -/
def TreeNode.avoidsProto : TreeNode JsValue → Bool
  | .node key slots children => decide (key ≠ Record.protoName) &&
      slots.all (fun e => decide (e.1 ≠ Record.protoName)) && allAvoidProto children

/-- No key and no slot of several topics is named `__proto__`. -/
def allAvoidProto : List (TreeNode JsValue) → Bool
  | [] => true
  | tree :: trees => tree.avoidsProto && allAvoidProto trees

end

/-- Several topics avoid a name exactly when each does. -/
theorem allAvoidProto_iff {trees : List (TreeNode JsValue)} :
    allAvoidProto trees = true ↔ ∀ tree ∈ trees, tree.avoidsProto = true := by
  induction trees with
  | nil => simp [allAvoidProto]
  | cons tree trees ih => simp [allAvoidProto, ih]

/-- The topic that comes back from the document that a topic becomes. -/
def converted (tree : TreeNode JsValue) : TreeNode JsValue :=
  yValueToTreeNode (.obj (treeNodeToYValue tree)) tree.key

/-- The topics that come back from assigning several topics under their keys. -/
theorem map_childValues_perm {trees : List (TreeNode JsValue)} :
    ((childValues trees).filter fun e => decide (e.1 ≠ Record.protoName)).map
        (fun e => yValueToTreeNode e.2 e.1) =
      (trees.filter fun tree => decide (tree.key ≠ Record.protoName)).map converted := by
  rw [childValues_eq_map, List.filter_map, List.map_map]
  rfl

/-- A topic comes back with its slots and its subtopics but those named `__proto__`. -/
theorem converted_node {key : JsString} {slots : Record JsValue}
    {children : List (TreeNode JsValue)}
    (hnames : (slots.map Prod.fst ++ children.map TreeNode.key).Nodup)
    (hslots : ∀ e ∈ slots, isPlainObject e.2 = false) :
    ∃ slots' children', converted (.node key slots children) = .node key slots' children' ∧
      (∀ name, Record.get slots' name =
        if name = Record.protoName then none else Record.get slots name) ∧
      children'.Perm ((children.filter fun child =>
        decide (child.key ≠ Record.protoName)).map converted) := by
  have hslotNames : (slots.map Prod.fst).Nodup := (List.nodup_append.mp hnames).1
  have hall : ((Record.entries slots ++ childValues children).map Prod.fst).Nodup := by
    rw [Record.entries_of_nodup hslotNames, childValues_eq_map, List.map_append, List.map_map]
    exact hnames
  have hentries := entries_assignAll_perm hall
  rw [Record.entries_of_nodup hslotNames] at hentries hall
  have hchildren : ∀ e ∈ childValues children, isPlainObject e.2 = true := by
    rw [childValues_eq_map]
    intro e he
    obtain ⟨child, -, rfl⟩ := List.mem_map.mp he
    rfl
  have hplain : (slots ++ childValues children).filter (fun e => isPlainObject e.2) =
      childValues children := by
    rw [List.filter_append, List.filter_eq_nil_iff.mpr fun e he => by simp [hslots e he],
      List.filter_eq_self.mpr hchildren, List.nil_append]
  have hother : (slots ++ childValues children).filter (fun e => !isPlainObject e.2) = slots := by
    rw [List.filter_append, List.filter_eq_self.mpr fun e he => by simp [hslots e he],
      List.filter_eq_nil_iff.mpr fun e he => by simp [hchildren e he], List.append_nil]
  have hconverted := yValueToTreeNode_obj (assignAll [] (slots ++ childValues children)) key
  rw [← Record.entries_of_nodup hslotNames] at hconverted
  refine ⟨_, _, hconverted, fun name => ?_, ?_⟩ <;> rw [Record.entries_of_nodup hslotNames]
  · have hkept : ((Record.entries (assignAll [] (slots ++ childValues children))).filter
        fun e => !isPlainObject e.2).Perm (Record.erase slots Record.protoName) := by
      refine (hentries.filter _).trans (List.Perm.of_eq ?_)
      rw [List.filter_comm, hother]
      rfl
    have hnodup : (((Record.entries (assignAll [] (slots ++ childValues children))).filter
        fun e => !isPlainObject e.2).map Prod.fst).Nodup :=
      (Record.keys_nodup _).sublist (List.filter_sublist.map _)
    rw [get_assignAll_of_nodup hnodup, ← Record.get_perm hnodup hkept, Record.get_erase]
    by_cases hname : name = Record.protoName <;> simp [hname]
  · rw [← map_childValues_perm]
    refine List.Perm.map _ ((hentries.filter _).trans (List.Perm.of_eq ?_))
    rw [List.filter_comm, hplain]

/-! ## The round trip -/

/-- The key of a topic comes back. -/
theorem converted_key (tree : TreeNode JsValue) : (converted tree).key = tree.key := by
  obtain ⟨key, slots, children⟩ := tree
  rw [converted, yValueToTreeNode_obj]
  rfl

/-- No slot of a topic and no topic below it is named `__proto__`. -/
def TreeNode.avoidsProtoInside (tree : TreeNode JsValue) : Prop :=
  (∀ e ∈ tree.slots, e.1 ≠ Record.protoName) ∧ ∀ child ∈ tree.children, child.avoidsProto = true

/-- A topic avoids a name by its own key and inside. -/
theorem TreeNode.avoidsProto_iff {tree : TreeNode JsValue} :
    tree.avoidsProto = true ↔ tree.key ≠ Record.protoName ∧ tree.avoidsProtoInside := by
  obtain ⟨key, slots, children⟩ := tree
  simp only [avoidsProto, avoidsProtoInside, allAvoidProto_iff, Bool.and_eq_true,
    decide_eq_true_eq, List.all_eq_true, TreeNode.key, TreeNode.slots, TreeNode.children, and_assoc]

/-- What comes back of several topics is alike to them exactly when none is named
`__proto__` and each comes back alike. -/
theorem alikeTrees_iff {trees back : List (TreeNode JsValue)}
    (hkeys : (trees.map TreeNode.key).Nodup)
    (hback : back.Perm ((trees.filter fun tree =>
      decide (tree.key ≠ Record.protoName)).map converted))
    (htrees : ∀ tree ∈ trees, (Alike (converted tree) tree ↔ tree.avoidsProtoInside)) :
    AlikeTrees back trees ↔ ∀ tree ∈ trees, tree.avoidsProto = true := by
  constructor
  · rintro ⟨middle, hpairs, hperm⟩
    have hlen : (trees.filter fun tree => decide (tree.key ≠ Record.protoName)).length =
        trees.length := by
      rw [← hperm.length_eq, ← hpairs.length_eq, hback.length_eq, List.length_map]
    intro tree htree
    refine TreeNode.avoidsProto_iff.mpr ⟨?_, (htrees tree htree).mp ?_⟩
    · exact of_decide_eq_true (List.length_filter_eq_length_iff.mp hlen tree htree)
    · obtain ⟨i, hi, rfl⟩ := List.mem_iff_getElem.mp (hperm.mem_iff.mpr htree)
      have hi' : i < back.length := hpairs.length_eq ▸ hi
      have halike := List.Forall₂.get hpairs hi' hi
      simp only [List.get_eq_getElem] at halike
      obtain ⟨other, hother, heq⟩ := List.mem_map.mp (hback.mem_iff.mp (List.getElem_mem hi'))
      -- the topic that comes back alike has the same key, so it is the same topic
      rw [← heq] at halike
      have hkey := halike.key_eq
      rw [converted_key] at hkey
      rwa [List.inj_on_of_nodup_map hkeys (List.mem_filter.mp hother).1 htree hkey] at halike
  · intro h
    have hall : trees.filter (fun tree => decide (tree.key ≠ Record.protoName)) = trees :=
      List.filter_eq_self.mpr fun tree htree =>
        decide_eq_true (TreeNode.avoidsProto_iff.mp (h tree htree)).1
    rw [hall] at hback
    have hpairs : List.Forall₂ Alike (trees.map converted) trees := by
      rw [List.forall₂_map_left_iff, List.forall₂_same]
      exact fun tree htree =>
        (htrees tree htree).mpr (TreeNode.avoidsProto_iff.mp (h tree htree)).2
    exact List.perm_comp_forall₂ hback hpairs

/-- A topic comes back alike exactly when nothing inside it is named `__proto__`. -/
theorem alike_converted_iff {tree : TreeNode JsValue} (h : tree.isConvertible = true) :
    Alike (converted tree) tree ↔ tree.avoidsProtoInside := by
  induction tree using TreeNode.induct with
  | node key slots children ih =>
    simp only [TreeNode.isConvertible, Bool.and_eq_true, decide_eq_true_eq, List.all_eq_true,
      Bool.not_eq_true', allConvertible_iff] at h
    obtain ⟨⟨hnames, hslots⟩, hchildren⟩ := h
    obtain ⟨slots', children', hconverted, hget, hperm⟩ := converted_node hnames hslots
    have hbelow := alikeTrees_iff (List.nodup_append.mp hnames).2.1 hperm fun child hchild =>
      ih child hchild (hchildren child hchild)
    rw [hconverted]
    constructor
    · intro halike
      cases halike with
      | node hslots' hpairs hperm' =>
        refine ⟨fun e he hname => ?_, hbelow.mp ⟨_, hpairs, hperm'⟩⟩
        have hown : Record.get slots e.1 = some e.2 :=
          Record.get_eq_some_of_mem (List.nodup_append.mp hnames).1 he
        rw [← hslots' e.1, hget, if_pos hname] at hown
        cases hown
    · rintro ⟨hslots', hchildren'⟩
      obtain ⟨middle, hpairs, hperm'⟩ := hbelow.mpr hchildren'
      refine Alike.node (fun name => ?_) hpairs hperm'
      rw [hget]
      split_ifs with hname
      · symm
        rw [Option.eq_none_iff_forall_ne_some]
        intro v hv
        exact hslots' _ (Record.mem_of_get hv) hname
      · rfl

/-- The topics that come back from the document that topics become. -/
theorem yvalueToTrees_treesToYValue_perm {trees : List (TreeNode JsValue)}
    (hkeys : (trees.map TreeNode.key).Nodup) :
    (yvalueToTrees (treesToYValue trees)).Perm ((trees.filter fun tree =>
      decide (tree.key ≠ Record.protoName)).map converted) := by
  have hnames : ((childValues trees).map Prod.fst).Nodup := by
    rw [childValues_eq_map, List.map_map]
    exact hkeys
  rw [← map_childValues_perm]
  exact (entries_assignAll_perm hnames).map _

/-- Topics come back from the document that they become, up to order, exactly when no key
and no slot among them is named `__proto__`. -/
theorem yvalueToTrees_treesToYValue_iff {trees : List (TreeNode JsValue)}
    (h : ConvertibleTrees trees) :
    AlikeTrees (yvalueToTrees (treesToYValue trees)) trees ↔
      allAvoidProto trees = true := by
  rw [allAvoidProto_iff]
  exact alikeTrees_iff h.1 (yvalueToTrees_treesToYValue_perm h.1) fun tree htree =>
    alike_converted_iff (allConvertible_iff.mp h.2 tree htree)

end T3x.Semantic
