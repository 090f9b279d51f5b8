import T3x.Semantic.Tree

/-!
# Forests of semantic trees

Well-formed trees flatten to placed nodes with distinct paths and all their
ancestors. A list of nodes is put together group by group, and what comes back
does not depend on the order of the nodes as long as every group has one root.
-/

namespace T3x.Semantic

open Js

variable {V : Type}

/-! ## Groups -/

/-- The nodes under one root. -/
def group (nodes : List (FlatNode V)) (key : JsString) : List (FlatNode V) :=
  nodes.filter fun f => decide (rootKey f.id = key)

/-- The nodes that a group's topic flattens to. -/
def rebuilt (nodes : List (FlatNode V)) : List (FlatNode V) :=
  match unflattenToTree nodes with
  | some tree => flattenTree tree
  | none => []

/-- Grouping one more node at the end. -/
theorem groupByRoot_append (nodes : List (FlatNode V)) (f : FlatNode V) :
    groupByRoot (nodes ++ [f]) = Record.mapSet (groupByRoot nodes) (rootKey f.id)
      ((Record.get (groupByRoot nodes) (rootKey f.id)).getD [] ++ [f]) := by
  simp [groupByRoot, List.foldl_append]

/-- Every group has one entry. -/
theorem groupByRoot_nodup (nodes : List (FlatNode V)) :
    ((groupByRoot nodes).map Prod.fst).Nodup := by
  induction nodes using List.reverseRecOn with
  | nil => simp [groupByRoot]
  | append_singleton nodes f ih =>
    rw [groupByRoot_append]
    exact Record.nodup_mapSet ih _ _

/-- The entry of a root is its group. -/
theorem get_groupByRoot (nodes : List (FlatNode V)) (key : JsString) :
    Record.get (groupByRoot nodes) key =
      if group nodes key = [] then none else some (group nodes key) := by
  induction nodes using List.reverseRecOn with
  | nil => rfl
  | append_singleton nodes f ih =>
    rw [groupByRoot_append, Record.get_mapSet]
    have happend : group (nodes ++ [f]) key =
        group nodes key ++ if rootKey f.id = key then [f] else [] := by
      unfold group
      rw [List.filter_append]
      split_ifs with h <;> simp [h]
    rw [happend]
    by_cases hkey : key = rootKey f.id
    · subst hkey
      rw [if_pos rfl, ih]
      by_cases hnil : group nodes (rootKey f.id) = []
      · simp [hnil]
      · simp [hnil]
    · rw [if_neg hkey, ih, if_neg (Ne.symm hkey), List.append_nil]

/-- The nodes of the topics that a list is put together to, group by group. -/
theorem flattenTrees_unflattenToTrees (nodes : List (FlatNode V)) :
    flattenTrees (unflattenToTrees nodes) =
      ((groupByRoot nodes).map Prod.fst).flatMap fun key => rebuilt (group nodes key) := by
  have hentry : ∀ e ∈ groupByRoot nodes, e.2 = group nodes e.1 := by
    intro e he
    have hget := Record.get_eq_some_of_mem (groupByRoot_nodup nodes) (v := e.2) he
    rw [get_groupByRoot] at hget
    split_ifs at hget
    exact (Option.some.inj hget).symm
  unfold flattenTrees unflattenToTrees
  rw [flattenChildren_eq_flatMap, List.flatMap_map]
  have hgroups : ∀ groups : Record (List (FlatNode V)), (∀ e ∈ groups, e.2 = group nodes e.1) →
      (groups.filterMap fun e => unflattenToTree e.2).flatMap
        (fun tree => flattenNode tree []) =
      groups.flatMap fun e => rebuilt (group nodes e.1) := by
    intro groups h
    induction groups with
    | nil => rfl
    | cons e groups ih =>
      have he := h e List.mem_cons_self
      rw [List.flatMap_cons, ← ih fun e' he' => h e' (List.mem_cons_of_mem _ he'),
        List.filterMap_cons, rebuilt, ← he]
      cases unflattenToTree e.2 <;> rfl
  exact hgroups _ hentry

/-- A root is grouped exactly when a node stands under it. -/
theorem mem_groupByRoot {nodes : List (FlatNode V)} {key : JsString} :
    key ∈ (groupByRoot nodes).map Prod.fst ↔ group nodes key ≠ [] := by
  constructor
  · intro h hnil
    obtain ⟨e, he, rfl⟩ := List.mem_map.mp h
    have hget := Record.get_eq_some_of_mem (groupByRoot_nodup nodes) (v := e.2) he
    rw [get_groupByRoot, if_pos hnil] at hget
    simp at hget
  · intro hne
    have hget := get_groupByRoot nodes key
    rw [if_neg hne] at hget
    exact List.mem_map.mpr ⟨_, Record.mem_of_get hget, rfl⟩

/-- No nodes are put together to nothing. -/
@[simp] theorem rebuilt_nil : rebuilt ([] : List (FlatNode V)) = [] := by
  simp [rebuilt, unflattenToTree, sortBy, grow]

/-! ## Rooted groups -/

/-- One node of a list is at the root. -/
def OneRoot (nodes : List (FlatNode V)) : Prop :=
  (nodes.filter fun f => decide (depth f.id = 1)).length = 1

/-- A list with one node at the root is rooted when sorted by depth. -/
theorem sorted_isRooted {nodes : List (FlatNode V)} (h : OneRoot nodes) :
    ∃ f rest, sortBy (fun a b => (depth a.id : ℤ) - depth b.id) nodes = f :: rest ∧
      IsRooted f rest := by
  have hperm := sortBy_perm (fun a b : FlatNode V => (depth a.id : ℤ) - depth b.id) nodes
  have hsorted := sortBy_pairwise_sub (fun f : FlatNode V => depth f.id) nodes
  have hone := (hperm.filter fun f => decide (depth f.id = 1)).length_eq
  rw [h] at hone
  generalize sortBy (fun a b : FlatNode V => (depth a.id : ℤ) - depth b.id) nodes = sorted
    at hperm hsorted hone ⊢
  cases sorted with
  | nil => simp at hone
  | cons f rest =>
    have hroot : depth f.id = 1 := by
      obtain ⟨r, hr⟩ := List.exists_mem_of_length_pos (by rw [hone]; exact one_pos)
      obtain ⟨hmem, hdepth⟩ := List.mem_filter.mp hr
      have hdepth := of_decide_eq_true hdepth
      have hpos := depth_pos f.id
      rcases List.mem_cons.mp hmem with rfl | hmem
      · exact hdepth
      · have hle := (List.pairwise_cons.mp hsorted).1 r hmem
        omega
    refine ⟨f, rest, rfl, hroot, fun g hg => ?_, hsorted⟩
    have hrest : (rest.filter fun f => decide (depth f.id = 1)).length = 0 := by
      rw [List.filter_cons, if_pos (decide_eq_true hroot), List.length_cons] at hone
      omega
    have hnot := List.filter_eq_nil_iff.mp (List.eq_nil_of_length_eq_zero hrest) g hg
    have hpos := depth_pos g.id
    rw [decide_eq_true_eq] at hnot
    omega

/-- Whether a path has all its ancestors depends on the nodes as a set. -/
theorem anchored_congr {nodes nodes' : List (FlatNode V)} {id : JsString}
    (h : nodes.map FlatNode.id ⊆ nodes'.map FlatNode.id) (hanchored : Anchored nodes id) :
    Anchored nodes' id := by
  intro a ha
  obtain ⟨g, hg, rfl⟩ := hanchored a ha
  obtain ⟨g', hg', hid⟩ := List.mem_map.mp (h (List.mem_map.mpr ⟨g, hg, rfl⟩))
  exact ⟨g', hg', hid⟩

open Classical in
/-- A group of placed nodes with one root is put together to the nodes that have all
their ancestors. -/
theorem rebuilt_perm {nodes : List (FlatNode V)} (hplaced : ∀ f ∈ nodes, IsPlaced f)
    (hone : OneRoot nodes) :
    (rebuilt nodes).Perm (nodes.filter fun g => decide (Anchored nodes g.id)) := by
  obtain ⟨f, rest, hsort, hrooted⟩ := sorted_isRooted hone
  have hperm := sortBy_perm (fun a b : FlatNode V => (depth a.id : ℤ) - depth b.id) nodes
  rw [hsort] at hperm
  obtain ⟨tree, htree, hflatten⟩ := flattenTree_grow hrooted fun g hg =>
    hplaced g (hperm.mem_iff.mp hg)
  have hrebuilt : rebuilt nodes = flattenTree tree := by
    rw [rebuilt, unflattenToTree, hsort, htree]
  rw [hrebuilt]
  refine hflatten.trans ?_
  have hiff : ∀ g : FlatNode V, Anchored (f :: rest) g.id ↔ Anchored nodes g.id := fun g =>
    ⟨anchored_congr (hperm.map _).subset, anchored_congr (hperm.map _).symm.subset⟩
  simp only [hiff]
  exact hperm.filter _

/-- A node of a group with one root, with all its ancestors and all of them placed, is
put together again. -/
theorem mem_rebuilt {nodes : List (FlatNode V)} (hone : OneRoot nodes)
    (hne : ∀ h ∈ nodes, h.id ≠ []) {x : FlatNode V} (hx : x ∈ nodes)
    (hplaced : ∀ h ∈ nodes, h.id = x.id ∨ Above h.id x.id → IsPlaced h)
    (hanchored : Anchored nodes x.id) : x ∈ rebuilt nodes := by
  obtain ⟨f, rest, hsort, hrooted⟩ := sorted_isRooted hone
  have hperm := sortBy_perm (fun a b : FlatNode V => (depth a.id : ℤ) - depth b.id) nodes
  rw [hsort] at hperm
  obtain ⟨tree, htree, hmem⟩ := mem_flattenTree_of_anchored hrooted
    (fun h hh => hne h (hperm.mem_iff.mp hh)) (hperm.mem_iff.mpr hx)
    (fun h hh => hplaced h (hperm.mem_iff.mp hh))
    (anchored_congr (hperm.map _).symm.subset hanchored)
  rw [rebuilt, unflattenToTree, hsort, htree]
  exact hmem

/-- The ancestors of a node are in its group. -/
theorem anchored_group {nodes : List (FlatNode V)} {id : JsString} :
    Anchored (group nodes (rootKey id)) id ↔ Anchored nodes id := by
  refine ⟨anchored_congr (List.Sublist.map _ List.filter_sublist).subset, fun h a ha => ?_⟩
  obtain ⟨g, hg, rfl⟩ := h a ha
  exact ⟨g, List.mem_filter.mpr ⟨hg, decide_eq_true ha.rootKey_eq⟩, rfl⟩

/-- A node with all its ancestors, all of them placed, comes back when its group has
one root. -/
theorem mem_flattenTrees_unflattenToTrees {nodes : List (FlatNode V)}
    (hne : ∀ h ∈ nodes, h.id ≠ []) {x : FlatNode V} (hx : x ∈ nodes)
    (hone : OneRoot (group nodes (rootKey x.id)))
    (hplaced : ∀ h ∈ nodes, h.id = x.id ∨ Above h.id x.id → IsPlaced h)
    (hanchored : Anchored nodes x.id) : x ∈ flattenTrees (unflattenToTrees nodes) := by
  rw [flattenTrees_unflattenToTrees]
  have hmem : x ∈ group nodes (rootKey x.id) := List.mem_filter.mpr ⟨hx, decide_eq_true rfl⟩
  refine List.mem_flatMap.mpr ⟨rootKey x.id, ?_, ?_⟩
  · exact mem_groupByRoot.mpr (List.ne_nil_of_mem hmem)
  · exact mem_rebuilt hone (fun h hh => hne h (List.mem_filter.mp hh).1) hmem
      (fun h hh => hplaced h (List.mem_filter.mp hh).1) (anchored_group.mpr hanchored)

/-! ## Nodes up to the values of their slots -/

/-- A node as it reads: its path, its type and what its slots read as. -/
structure NodeReading (R : Type) where
  /-- The path. -/
  id : JsString
  /-- The type. -/
  type : JsString
  /-- The slots. -/
  slots : JsString → Option R

/-- The reading of a node. -/
def FlatNode.reading {R : Type} (read : V → R) (f : FlatNode V) : NodeReading R :=
  ⟨f.id, f.type, fun key => (Record.get f.slots key).map read⟩

variable {R : Type} {read : V → R}

/-- Lists whose groups come back alike come back alike. -/
theorem unflattenToTrees_perm {nodes nodes' : List (FlatNode V)}
    (h : ∀ key, ((rebuilt (group nodes key)).map (FlatNode.reading read)).Perm
      ((rebuilt (group nodes' key)).map (FlatNode.reading read)))
    (hids : ∀ id, id ∈ nodes.map FlatNode.id ↔ id ∈ nodes'.map FlatNode.id) :
    ((flattenTrees (unflattenToTrees nodes)).map (FlatNode.reading read)).Perm
      ((flattenTrees (unflattenToTrees nodes')).map (FlatNode.reading read)) := by
  have hgroup : ∀ (ns : List (FlatNode V)) key, group ns key ≠ [] ↔
      ∃ id ∈ ns.map FlatNode.id, rootKey id = key := by
    intro ns key
    constructor
    · intro hne
      obtain ⟨f, hf⟩ := List.exists_mem_of_ne_nil _ hne
      obtain ⟨hmem, hroot⟩ := List.mem_filter.mp hf
      exact ⟨f.id, List.mem_map.mpr ⟨f, hmem, rfl⟩, of_decide_eq_true hroot⟩
    · rintro ⟨id, hid, hroot⟩
      obtain ⟨f, hmem, rfl⟩ := List.mem_map.mp hid
      exact List.ne_nil_of_mem (List.mem_filter.mpr ⟨hmem, decide_eq_true hroot⟩)
  have hkeys : ((groupByRoot nodes).map Prod.fst).Perm ((groupByRoot nodes').map Prod.fst) := by
    rw [List.perm_ext_iff_of_nodup (groupByRoot_nodup nodes) (groupByRoot_nodup nodes')]
    intro key
    rw [mem_groupByRoot, mem_groupByRoot, hgroup, hgroup]
    exact exists_congr fun id => and_congr_left fun _ => hids id
  rw [flattenTrees_unflattenToTrees, flattenTrees_unflattenToTrees, List.map_flatMap,
    List.map_flatMap]
  exact hkeys.flatMap fun key _ => h key

open Classical in
/-- Groups of placed nodes with one root that read alike come back alike. -/
theorem rebuilt_reading_perm {nodes nodes' : List (FlatNode V)}
    (hplaced : ∀ f ∈ nodes, IsPlaced f) (hplaced' : ∀ f ∈ nodes', IsPlaced f)
    (hone : OneRoot nodes) (hone' : OneRoot nodes')
    (h : (nodes.map (FlatNode.reading read)).Perm (nodes'.map (FlatNode.reading read))) :
    ((rebuilt nodes).map (FlatNode.reading read)).Perm
      ((rebuilt nodes').map (FlatNode.reading read)) := by
  have hids : (nodes.map FlatNode.id).Perm (nodes'.map FlatNode.id) := by
    have hmap := h.map NodeReading.id
    rwa [List.map_map, List.map_map] at hmap
  have hiff : ∀ id, Anchored nodes id ↔ Anchored nodes' id := fun id =>
    ⟨anchored_congr hids.subset, anchored_congr hids.symm.subset⟩
  have hfilter : ∀ ns : List (FlatNode V),
      (ns.filter fun g => decide (Anchored nodes g.id)).map (FlatNode.reading read) =
        (ns.map (FlatNode.reading read)).filter fun r => decide (Anchored nodes r.id) := by
    intro ns
    rw [List.filter_map]
    rfl
  refine ((rebuilt_perm hplaced hone).map _).trans (List.Perm.trans ?_
    ((rebuilt_perm hplaced' hone').map _).symm)
  simp only [← hiff]
  rw [hfilter, hfilter]
  exact h.filter _

/-! ## Well-formed trees -/

mutual

/-- A tree is well formed: its keys are non-empty, hold no slash and differ among
siblings. -/
def TreeNode.wellFormed : TreeNode V → Bool
  | .node key _ children =>
    decide (key ≠ [] ∧ unit '/' ∉ key ∧ (children.map TreeNode.key).Nodup) &&
      allWellFormed children

/-- All trees of a list are well formed. -/
def allWellFormed : List (TreeNode V) → Bool
  | [] => true
  | tree :: trees => tree.wellFormed && allWellFormed trees

end

/-- Sibling trees are well formed. -/
def WellFormedTrees (trees : List (TreeNode V)) : Prop :=
  (trees.map TreeNode.key).Nodup ∧ allWellFormed trees = true

instance (trees : List (TreeNode V)) : Decidable (WellFormedTrees trees) :=
  inferInstanceAs (Decidable (_ ∧ _))

/-- All trees of a list are well formed exactly when each is. -/
theorem allWellFormed_iff {trees : List (TreeNode V)} :
    allWellFormed trees = true ↔ ∀ tree ∈ trees, tree.wellFormed = true := by
  induction trees with
  | nil => simp [allWellFormed]
  | cons tree trees ih => simp [allWellFormed, ih]

/-- What a well-formed tree is. -/
theorem TreeNode.wellFormed_node {key : JsString} {slots : Record V}
    {children : List (TreeNode V)} :
    (TreeNode.node key slots children).wellFormed = true ↔
      key ≠ [] ∧ unit '/' ∉ key ∧ WellFormedTrees children := by
  simp only [TreeNode.wellFormed, WellFormedTrees, Bool.and_eq_true, decide_eq_true_eq, and_assoc]

/-- The nodes of a well-formed tree are placed. -/
theorem isPlaced_of_wellFormed {tree : TreeNode V} {path : JsString} {x : FlatNode V}
    (h : tree.wellFormed = true) (hx : x ∈ flattenNode tree path) : IsPlaced x := by
  induction tree using TreeNode.induct generalizing path x with
  | node key slots children ih =>
    obtain ⟨hne, hslash, -, hchildren⟩ := TreeNode.wellFormed_node.mp h
    rcases mem_flattenNode.mp hx with rfl | ⟨child, hchild, hx⟩
    · exact ⟨hne, hslash, by rw [parentPath_extendPath hslash]⟩
    · exact ih child hchild (allWellFormed_iff.mp hchildren child hchild) hx

/-- The segments of a node of a well-formed tree go through the tree's key. -/
theorem segments_of_wellFormed {tree : TreeNode V} {path : JsString} {x : FlatNode V}
    (h : tree.wellFormed = true) (hx : x ∈ flattenNode tree path) :
    ∃ rest, segments x.id = parentSegments path ++ tree.key :: rest := by
  induction tree using TreeNode.induct generalizing path x with
  | node key slots children ih =>
    obtain ⟨hne, hslash, -, hchildren⟩ := TreeNode.wellFormed_node.mp h
    rcases mem_flattenNode.mp hx with rfl | ⟨child, hchild, hx⟩
    · exact ⟨[], segments_extendPath hslash⟩
    · obtain ⟨rest, hrest⟩ := ih child hchild (allWellFormed_iff.mp hchildren child hchild) hx
      refine ⟨child.key :: rest, ?_⟩
      rw [hrest, parentSegments_extendPath hne hslash, List.append_assoc]
      rfl

/-- The paths of a list of distinct well-formed siblings are distinct, given that
each sibling's are. -/
theorem flattenChildren_nodup {children : List (TreeNode V)} {path : JsString}
    (hkeys : (children.map TreeNode.key).Nodup)
    (hchildren : ∀ child ∈ children, child.wellFormed = true)
    (hids : ∀ child ∈ children, ((flattenNode child path).map FlatNode.id).Nodup) :
    ((flattenChildren children path).map FlatNode.id).Nodup := by
  rw [flattenChildren_eq_flatMap, List.map_flatMap, List.nodup_flatMap]
  refine ⟨hids, ?_⟩
  refine List.Pairwise.imp_of_mem ?_ (List.Pairwise.of_map _ (fun _ _ h => h) hkeys)
  intro child child' hmem hmem' hne
  simp only [Function.onFun, List.disjoint_left, List.mem_map]
  rintro id ⟨x, hx, rfl⟩ ⟨y, hy, hid⟩
  obtain ⟨rest, hrest⟩ := segments_of_wellFormed (hchildren child hmem) hx
  obtain ⟨rest', hrest'⟩ := segments_of_wellFormed (hchildren child' hmem') hy
  rw [hid, hrest] at hrest'
  exact hne (List.cons.inj (List.append_cancel_left hrest')).1

/-- The paths of a well-formed tree are distinct. -/
theorem flattenNode_nodup {tree : TreeNode V} {path : JsString} (h : tree.wellFormed = true) :
    ((flattenNode tree path).map FlatNode.id).Nodup := by
  induction tree using TreeNode.induct generalizing path with
  | node key slots children ih =>
    obtain ⟨hne, hslash, hkeys, hchildren⟩ := TreeNode.wellFormed_node.mp h
    have hall := allWellFormed_iff.mp hchildren
    have hrest : ((flattenChildren children (extendPath path key)).map FlatNode.id).Nodup :=
      flattenChildren_nodup hkeys hall fun child hchild => ih child hchild (hall child hchild)
    rw [flattenNode, List.map_cons, List.nodup_cons]
    refine ⟨?_, hrest⟩
    rw [List.mem_map]
    rintro ⟨x, hx, hid⟩
    rw [flattenChildren_eq_flatMap] at hx
    obtain ⟨child, hchild, hx⟩ := List.mem_flatMap.mp hx
    obtain ⟨rest, hsegments⟩ := segments_of_wellFormed (hall child hchild) hx
    rw [hid, parentSegments_extendPath hne hslash, segments_extendPath hslash] at hsegments
    have hlen := congrArg List.length hsegments
    simp at hlen

/-- What the nodes of well-formed trees are like. -/
structure IsFlattened (nodes : List (FlatNode V)) : Prop where
  /-- Every node is placed. -/
  placed : ∀ f ∈ nodes, IsPlaced f
  /-- The paths are distinct. -/
  nodup : (nodes.map FlatNode.id).Nodup
  /-- Every node has its ancestors. -/
  anchored : ∀ f ∈ nodes, Anchored nodes f.id

/-- The nodes of well-formed trees are placed, distinct and have their ancestors. -/
theorem isFlattened_flattenTrees {trees : List (TreeNode V)} (h : WellFormedTrees trees) :
    IsFlattened (flattenTrees trees) := by
  have hall := allWellFormed_iff.mp h.2
  have hmem : ∀ f, f ∈ flattenTrees trees ↔ ∃ tree ∈ trees, f ∈ flattenNode tree [] := by
    intro f
    rw [flattenTrees, flattenChildren_eq_flatMap, List.mem_flatMap]
  refine ⟨?_, flattenChildren_nodup h.1 hall fun tree htree => flattenNode_nodup (hall tree htree),
    ?_⟩
  · intro f hf
    obtain ⟨tree, htree, hf⟩ := (hmem f).mp hf
    exact isPlaced_of_wellFormed (hall tree htree) hf
  · intro f hf a ha
    obtain ⟨tree, htree, hf⟩ := (hmem f).mp hf
    have hkeys : ∀ y ∈ flattenNode tree [], y.type ≠ [] ∧ unit '/' ∉ y.type := fun y hy =>
      have hplaced := isPlaced_of_wellFormed (hall tree htree) hy
      ⟨hplaced.type_ne, hplaced.slash⟩
    rcases above_mem_flattenNode hkeys hf ha with ⟨y, hy, hid⟩ | ⟨hnil, -⟩
    · exact ⟨y, (hmem y).mpr ⟨tree, htree, hy⟩, hid⟩
    · exact absurd rfl hnil

/-- The root of a path is the path or above it. -/
theorem rootKey_eq_or_above (id : JsString) :
    (depth id = 1 ∧ rootKey id = id) ∨ (2 ≤ depth id ∧ Above (rootKey id) id) := by
  have hjoin := join_split (unit '/') id
  unfold depth rootKey Above
  rw [← segments] at hjoin
  cases hseg : segments id with
  | nil => exact absurd hseg (split_ne_nil _ _)
  | cons s rest =>
    rw [hseg] at hjoin
    cases rest with
    | nil => exact .inl ⟨rfl, by simpa using hjoin⟩
    | cons s' rest =>
      right
      refine ⟨by simp, join (unit '/') (s' :: rest), ?_⟩
      rw [join_cons_cons] at hjoin
      exact hjoin.symm

/-- The root of a path is its own root. -/
theorem rootKey_rootKey (id : JsString) : rootKey (rootKey id) = rootKey id := by
  rcases rootKey_eq_or_above id with ⟨-, hid⟩ | ⟨-, habove⟩
  · rw [hid, hid]
  · exact habove.rootKey_eq

/-- The root of a path has depth one. -/
theorem depth_rootKey (id : JsString) : depth (rootKey id) = 1 := by
  rcases rootKey_eq_or_above (rootKey id) with ⟨hdepth, -⟩ | ⟨-, habove⟩
  · exact hdepth
  · have hlt := habove.depth_lt
    rw [rootKey_rootKey] at hlt
    omega

/-- Nothing is above a path of depth one. -/
theorem not_above_of_depth_one {a id : JsString} (h : depth id = 1) : ¬ Above a id := by
  intro habove
  have hlt := habove.depth_lt
  have hpos := depth_pos a
  omega

/-- A group of distinct paths with a node that has all its ancestors has one root. -/
theorem oneRoot_of_anchored {nodes : List (FlatNode V)} (hnodup : (nodes.map FlatNode.id).Nodup)
    {x : FlatNode V} (hx : x ∈ nodes) (hanchored : Anchored nodes x.id) :
    OneRoot (group nodes (rootKey x.id)) := by
  have hroot : ∃ r ∈ nodes, r.id = rootKey x.id ∧ depth r.id = 1 := by
    rcases rootKey_eq_or_above x.id with ⟨hdepth, hid⟩ | ⟨-, habove⟩
    · exact ⟨x, hx, hid.symm, hdepth⟩
    · obtain ⟨r, hr, hid⟩ := hanchored _ habove
      exact ⟨r, hr, hid, hid ▸ depth_rootKey x.id⟩
  obtain ⟨r, hr, hid, hdepth⟩ := hroot
  unfold OneRoot
  have hall : ∀ f ∈ (group nodes (rootKey x.id)).filter fun f => decide (depth f.id = 1),
      f.id = rootKey x.id := by
    intro f hf
    obtain ⟨hf, hdepth⟩ := List.mem_filter.mp hf
    have hkey := of_decide_eq_true (List.mem_filter.mp hf).2
    rcases rootKey_eq_or_above f.id with ⟨-, hown⟩ | ⟨hdeep, -⟩
    · exact hown.symm.trans hkey
    · have hone := of_decide_eq_true hdepth
      omega
  have hmem : r ∈ (group nodes (rootKey x.id)).filter fun f => decide (depth f.id = 1) := by
    refine List.mem_filter.mpr ⟨List.mem_filter.mpr ⟨hr, decide_eq_true ?_⟩, decide_eq_true hdepth⟩
    rcases rootKey_eq_or_above r.id with ⟨-, hown⟩ | ⟨hdeep, -⟩
    · exact hown.trans hid
    · omega
  have hdistinct : (((group nodes (rootKey x.id)).filter fun f =>
      decide (depth f.id = 1)).map FlatNode.id).Nodup :=
    hnodup.sublist ((List.filter_sublist.trans List.filter_sublist).map _)
  generalize (group nodes (rootKey x.id)).filter (fun f => decide (depth f.id = 1)) = roots
    at hall hmem hdistinct
  rcases roots with _ | ⟨f, _ | ⟨g, roots⟩⟩
  · simp at hmem
  · rfl
  · have hf := hall f List.mem_cons_self
    have hg := hall g (List.mem_cons_of_mem _ List.mem_cons_self)
    simp [hf, hg] at hdistinct

/-- The groups of distinct keys, one after another, are the nodes with these keys. -/
theorem flatMap_group_perm (nodes : List (FlatNode V)) {keys : List JsString}
    (hkeys : keys.Nodup) :
    (keys.flatMap (group nodes)).Perm (nodes.filter fun f => decide (rootKey f.id ∈ keys)) := by
  induction keys with
  | nil => simp
  | cons key keys ih =>
    obtain ⟨hnot, hrest⟩ := List.nodup_cons.mp hkeys
    have hsplit := List.filter_append_perm (fun f : FlatNode V => decide (rootKey f.id = key))
      (nodes.filter fun f => decide (rootKey f.id ∈ key :: keys))
    have hfirst : (nodes.filter fun f => decide (rootKey f.id ∈ key :: keys)).filter
        (fun f => decide (rootKey f.id = key)) = group nodes key := by
      rw [List.filter_filter]
      refine List.filter_congr fun f _ => ?_
      by_cases hf : rootKey f.id = key <;> simp [hf]
    have hothers : (nodes.filter fun f => decide (rootKey f.id ∈ key :: keys)).filter
        (fun f => !decide (rootKey f.id = key)) =
          nodes.filter fun f => decide (rootKey f.id ∈ keys) := by
      rw [List.filter_filter]
      refine List.filter_congr fun f _ => ?_
      by_cases hf : rootKey f.id = key <;> simp [hf, hnot]
    rw [hfirst, hothers] at hsplit
    rw [List.flatMap_cons]
    exact ((ih hrest).append_left _).trans hsplit

/-- Putting together distinct placed nodes with all their ancestors keeps them. -/
theorem flattenTrees_unflattenToTrees_perm {nodes : List (FlatNode V)} (h : IsFlattened nodes) :
    (flattenTrees (unflattenToTrees nodes)).Perm nodes := by
  classical
  have hmem : ∀ f ∈ nodes, rootKey f.id ∈ (groupByRoot nodes).map Prod.fst := fun f hf =>
    mem_groupByRoot.mpr (List.ne_nil_of_mem (List.mem_filter.mpr ⟨hf, decide_eq_true rfl⟩))
  have hgroup : ∀ key ∈ (groupByRoot nodes).map Prod.fst,
      (rebuilt (group nodes key)).Perm (group nodes key) := by
    intro key hkey
    obtain ⟨f, hgroup⟩ := List.exists_mem_of_ne_nil _ (mem_groupByRoot.mp hkey)
    obtain ⟨hf, hroot⟩ := List.mem_filter.mp hgroup
    obtain rfl := of_decide_eq_true hroot
    have hplaced : ∀ g ∈ group nodes (rootKey f.id), IsPlaced g := fun g hg =>
      h.placed g (List.mem_filter.mp hg).1
    have hperm := rebuilt_perm hplaced (oneRoot_of_anchored h.nodup hf (h.anchored f hf))
    rwa [List.filter_eq_self.mpr] at hperm
    intro g hg
    obtain ⟨hg, hsame⟩ := List.mem_filter.mp hg
    rw [decide_eq_true_eq, ← of_decide_eq_true hsame]
    exact anchored_group.mpr (h.anchored g hg)
  rw [flattenTrees_unflattenToTrees]
  refine (List.Perm.flatMap_left _ hgroup).trans ?_
  refine (flatMap_group_perm nodes (groupByRoot_nodup nodes)).trans (List.Perm.of_eq ?_)
  exact List.filter_eq_self.mpr fun f hf => decide_eq_true (hmem f hf)

end T3x.Semantic
