import T3x.Semantic.Forest

/-!
# Putting together undoes flattening

Every topic of a forest stands at a path of keys, and its flat node is named by
that path. In the order of depth every node finds its parent before it, and the
siblings keep their order, so well-formed trees come back as they were.
-/

namespace T3x.Semantic

open Js

variable {V : Type}

/-- A topic has a node. -/
theorem length_flattenNode_pos (tree : TreeNode V) (path : JsString) :
    0 < (flattenNode tree path).length := by
  obtain ⟨key, slots, children⟩ := tree
  rw [flattenNode, List.length_cons]
  exact Nat.succ_pos _

/-! ## Key paths -/

/-- A topic of a forest and the keys above it. -/
structure Placement (V : Type) where
  /-- The keys of the topics above it, beginning at the root. -/
  above : List JsString
  /-- The topic. -/
  tree : TreeNode V

/-- The key path of a placed topic. -/
def Placement.keys (p : Placement V) : List JsString := p.above ++ [p.tree.key]

/-- The flat node of a placed topic: its path joins the keys by slashes. -/
def Placement.node (p : Placement V) : FlatNode V :=
  ⟨join (unit '/') p.keys, p.tree.key, p.tree.slots⟩

mutual

/-- The topics of a tree, each before its subtopics. -/
def placements : TreeNode V → List JsString → List (Placement V)
  | .node key slots children, above =>
    ⟨above, .node key slots children⟩ :: placementsAll children (above ++ [key])

/-- The topics of several trees under the same keys. -/
def placementsAll : List (TreeNode V) → List JsString → List (Placement V)
  | [], _ => []
  | tree :: trees, above => placements tree above ++ placementsAll trees above

end

/-- The topics of several trees are the topics of each. -/
theorem placementsAll_eq_flatMap (trees : List (TreeNode V)) (above : List JsString) :
    placementsAll trees above = trees.flatMap fun tree => placements tree above := by
  induction trees with
  | nil => rfl
  | cons tree trees ih => rw [placementsAll, ih, List.flatMap_cons]

/-- The topics of a tree: itself and those of its subtopics. -/
theorem mem_placements {key : JsString} {slots : Record V} {children : List (TreeNode V)}
    {above : List JsString} {p : Placement V} :
    p ∈ placements (.node key slots children) above ↔
      p = ⟨above, .node key slots children⟩ ∨
        ∃ child ∈ children, p ∈ placements child (above ++ [key]) := by
  rw [placements, List.mem_cons, placementsAll_eq_flatMap, List.mem_flatMap]

/-- A tree is the first of its topics. -/
theorem self_mem_placements (tree : TreeNode V) (above : List JsString) :
    ⟨above, tree⟩ ∈ placements tree above := by
  obtain ⟨key, slots, children⟩ := tree
  exact mem_placements.mpr (.inl rfl)

/-- Joined non-empty keys are not empty. -/
theorem join_ne_nil {keys : List JsString} (h : [] ∉ keys) (hne : keys ≠ []) :
    join (unit '/') keys ≠ [] := by
  obtain ⟨first, rest, rfl⟩ := List.exists_cons_of_ne_nil hne
  cases rest with
  | nil =>
    rw [join_singleton]
    rintro rfl
    exact h List.mem_cons_self
  | cons second rest => simp [join_cons_cons]

/-- The path of a child below joined keys joins one more key. -/
theorem extendPath_join {above : List JsString} (h : [] ∉ above) (key : JsString) :
    extendPath (join (unit '/') above) key = join (unit '/') (above ++ [key]) := by
  unfold extendPath
  by_cases hnil : above = []
  · rw [hnil, List.nil_append, join_singleton]
    exact if_pos rfl
  · rw [if_neg (join_ne_nil h hnil), join_append_singleton _ hnil]

/-- The flat nodes of a well-formed tree are those of its topics, in their order. -/
theorem flattenNode_eq_map {tree : TreeNode V} (hwf : tree.wellFormed = true)
    {above : List JsString} (habove : [] ∉ above) :
    flattenNode tree (join (unit '/') above) = (placements tree above).map Placement.node := by
  induction tree using TreeNode.induct generalizing above with
  | node key slots children ih =>
    obtain ⟨hne, -, -, hchildren⟩ := TreeNode.wellFormed_node.mp hwf
    have hbelow : [] ∉ above ++ [key] := by simp [habove, Ne.symm hne]
    rw [flattenNode, placements, List.map_cons, extendPath_join habove,
      flattenChildren_eq_flatMap, placementsAll_eq_flatMap, List.map_flatMap]
    refine congrArg₂ _ rfl (List.flatMap_congr fun child hchild => ?_)
    exact ih child hchild (allWellFormed_iff.mp hchildren child hchild) hbelow

/-- The flat nodes of well-formed trees are those of their topics, in their order. -/
theorem flattenTrees_eq_map {trees : List (TreeNode V)} (hwf : allWellFormed trees = true) :
    flattenTrees trees = (placementsAll trees []).map Placement.node := by
  rw [flattenTrees, flattenChildren_eq_flatMap, placementsAll_eq_flatMap, List.map_flatMap]
  refine List.flatMap_congr fun tree htree => ?_
  exact flattenNode_eq_map (allWellFormed_iff.mp hwf tree htree) List.not_mem_nil

/-! ## The shape of a well-formed tree -/

/-- The topics of a tree but itself stand below its key path. -/
theorem above_of_mem_placements {tree : TreeNode V} {above : List JsString} {p : Placement V}
    (hp : p ∈ placements tree above) :
    p = ⟨above, tree⟩ ∨ above ++ [tree.key] <+: p.above := by
  induction tree using TreeNode.induct generalizing above with
  | node key slots children ih =>
    rcases mem_placements.mp hp with rfl | ⟨child, hchild, hp⟩
    · exact .inl rfl
    · rcases ih child hchild hp with rfl | hprefix
      · exact .inr (List.prefix_refl _)
      · exact .inr ((List.prefix_append _ _).trans hprefix)

/-- The key path of every topic of a tree goes through the tree's key. -/
theorem prefix_keys {tree : TreeNode V} {above : List JsString} {p : Placement V}
    (hp : p ∈ placements tree above) : above ++ [tree.key] <+: p.keys := by
  rcases above_of_mem_placements hp with rfl | hprefix
  · exact List.prefix_refl _
  · exact hprefix.trans (List.prefix_append _ _)

/-- A key that a path can name: it is not empty and holds no slash. -/
def IsPathKey (key : JsString) : Prop := key ≠ [] ∧ unit '/' ∉ key

/-- The keys of a well-formed tree can be named by paths. -/
theorem isPathKey_of_mem_placements {tree : TreeNode V} (hwf : tree.wellFormed = true)
    {above : List JsString} (habove : ∀ key ∈ above, IsPathKey key) {p : Placement V}
    (hp : p ∈ placements tree above) : ∀ key ∈ p.keys, IsPathKey key := by
  induction tree using TreeNode.induct generalizing above with
  | node key slots children ih =>
    obtain ⟨hne, hslash, -, hchildren⟩ := TreeNode.wellFormed_node.mp hwf
    have hbelow : ∀ k ∈ above ++ [key], IsPathKey k := by
      intro k hk
      rcases List.mem_append.mp hk with hk | hk
      · exact habove k hk
      · exact List.mem_singleton.mp hk ▸ ⟨hne, hslash⟩
    rcases mem_placements.mp hp with rfl | ⟨child, hchild, hp⟩
    · exact hbelow
    · exact ih child hchild (allWellFormed_iff.mp hchildren child hchild) hbelow hp

/-- The topics right below a key path. -/
def below (keys : List JsString) (topics : List (Placement V)) : List (Placement V) :=
  topics.filter fun q => decide (q.above = keys)

/-- Nothing in a tree stands right below a path that misses the tree's key. -/
theorem below_eq_nil {tree : TreeNode V} {above keys : List JsString} (hne : keys ≠ above)
    (hkeys : ¬ above ++ [tree.key] <+: keys) : below keys (placements tree above) = [] := by
  refine List.filter_eq_nil_iff.mpr fun q hq => ?_
  rw [decide_eq_true_eq]
  rintro rfl
  rcases above_of_mem_placements hq with rfl | hprefix
  · exact hne rfl
  · exact hkeys hprefix

/-- What stands right below a topic of one of several trees with distinct keys is in
that tree. -/
theorem below_placementsAll {trees : List (TreeNode V)} (hkeys : (trees.map TreeNode.key).Nodup)
    {tree : TreeNode V} (htree : tree ∈ trees) {above : List JsString} {p : Placement V}
    (hp : p ∈ placements tree above) :
    below p.keys (placementsAll trees above) = below p.keys (placements tree above) := by
  have hthrough := prefix_keys hp
  have hlong : p.keys ≠ above := by
    rintro heq
    have hlen := (heq ▸ hthrough).length_le
    simp at hlen
  have hother : ∀ other : TreeNode V, other.key ≠ tree.key →
      below p.keys (placements other above) = [] := by
    intro other hne
    refine below_eq_nil hlong fun hprefix => hne ?_
    have heq := (List.prefix_of_prefix_length_le hprefix hthrough (by simp)).eq_of_length (by simp)
    simpa using heq
  have hothers : ∀ others : List (TreeNode V), tree.key ∉ others.map TreeNode.key →
      below p.keys (placementsAll others above) = [] := by
    intro others hnot
    rw [placementsAll_eq_flatMap, below, List.filter_flatMap, List.flatMap_eq_nil_iff]
    exact fun other hmem => hother other fun heq => hnot (heq ▸ List.mem_map_of_mem hmem)
  induction trees with
  | nil => exact absurd htree List.not_mem_nil
  | cons first trees ih =>
    obtain ⟨hnot, hrest⟩ := List.nodup_cons.mp hkeys
    rw [placementsAll, below, List.filter_append]
    rcases List.mem_cons.mp htree with rfl | htree
    · exact (congrArg _ (hothers trees hnot)).trans (List.append_nil _)
    · have hne : first.key ≠ tree.key := fun heq => hnot (heq ▸ List.mem_map_of_mem htree)
      exact (congrArg₂ _ (hother first hne) (ih hrest htree)).trans (List.nil_append _)

/-- Right below the keys above several trees stand these trees. -/
theorem below_above (trees : List (TreeNode V)) (above : List JsString) :
    below above (placementsAll trees above) = trees.map (Placement.mk above) := by
  induction trees with
  | nil => rfl
  | cons tree trees ih =>
    obtain ⟨key, slots, children⟩ := tree
    have hdeep : below above (placementsAll children (above ++ [key])) = [] := by
      rw [placementsAll_eq_flatMap, below, List.filter_flatMap, List.flatMap_eq_nil_iff]
      refine fun child _ => below_eq_nil (by simp) fun hprefix => ?_
      have hlen := hprefix.length_le
      simp at hlen
    rw [placementsAll, placements, below, List.filter_append,
      List.filter_cons_of_pos (by simp), List.map_cons]
    exact congrArg₂ (fun deep others => ⟨above, .node key slots children⟩ :: (deep ++ others))
      hdeep ih

/-- Right below a topic of a well-formed tree stand its subtopics, in their order. -/
theorem below_placements {tree : TreeNode V} (hwf : tree.wellFormed = true)
    {above : List JsString} {p : Placement V} (hp : p ∈ placements tree above) :
    below p.keys (placements tree above) = p.tree.children.map (Placement.mk p.keys) := by
  induction tree using TreeNode.induct generalizing above with
  | node key slots children ih =>
    obtain ⟨-, -, hkeys, hchildren⟩ := TreeNode.wellFormed_node.mp hwf
    have hself : ∀ q ∈ placements (.node key slots children) above, above ≠ q.keys := by
      rintro q hq heq
      have hlen := (heq ▸ prefix_keys hq).length_le
      simp at hlen
    rw [placements, below, List.filter_cons_of_neg (by simpa using hself p hp)]
    rcases mem_placements.mp hp with rfl | ⟨child, hchild, hp⟩
    · exact below_above children (above ++ [key])
    · exact (below_placementsAll hkeys hchild hp).trans
        (ih child hchild (allWellFormed_iff.mp hchildren child hchild) hp)

/-! ## Growing -/

/-- Topics in the order of their depth, each with all its subtopics right below it. -/
structure IsComplete (topics : List (Placement V)) : Prop where
  /-- The keys can be named by paths. -/
  keys : ∀ p ∈ topics, ∀ key ∈ p.keys, IsPathKey key
  /-- No two topics stand at one key path. -/
  nodup : (topics.map Placement.keys).Nodup
  /-- Right below a topic stand its subtopics, in their order. -/
  subtopics : ∀ p ∈ topics, below p.keys topics = p.tree.children.map (Placement.mk p.keys)
  /-- The depths ascend. -/
  sorted : topics.Pairwise fun p q => p.keys.length ≤ q.keys.length

/-- Joined keys determine the keys. -/
theorem join_inj_of_isPathKey {xs ys : List JsString} (hx : ∀ key ∈ xs, IsPathKey key)
    (hy : ∀ key ∈ ys, IsPathKey key) : join (unit '/') xs = join (unit '/') ys ↔ xs = ys := by
  refine ⟨fun h => ?_, congrArg _⟩
  have hnil : ∀ {keys : List JsString}, (∀ key ∈ keys, IsPathKey key) →
      join (unit '/') keys = [] → keys = [] := fun hkeys hjoin =>
    Classical.byContradiction fun hne => join_ne_nil (fun hmem => (hkeys _ hmem).1 rfl) hne hjoin
  by_cases hxs : xs = []
  · subst hxs
    exact (hnil hy h.symm).symm
  · have hys : ys ≠ [] := fun heq => hxs (hnil hx (h.trans (heq ▸ rfl)))
    rw [← split_join hxs fun key hkey => (hx key hkey).2, h,
      split_join hys fun key hkey => (hy key hkey).2]

/-- The segments of the path of a topic are its keys. -/
theorem segments_node {p : Placement V} (hkeys : ∀ key ∈ p.keys, IsPathKey key) :
    segments p.node.id = p.keys :=
  split_join (by simp [Placement.keys]) fun key hkey => (hkeys key hkey).2

/-- The path above the node of a topic joins the keys above it. -/
theorem parentPath_node {p : Placement V} (hkeys : ∀ key ∈ p.keys, IsPathKey key) :
    parentPath p.node.id = join (unit '/') p.above := by
  rw [parentPath, segments_node hkeys, Placement.keys, List.dropLast_concat]

/-- The topics of a list above which no topic of the list stands. -/
def waiting (topics : List (Placement V)) : List (Placement V) :=
  topics.filter fun p => decide (p.above ∉ topics.map Placement.keys)

/-- A topic of a complete list with those after it: its parent is before it, and after
it stand all its subtopics. -/
theorem waiting_cons {front rest : List (Placement V)} {p : Placement V}
    (h : IsComplete (front ++ p :: rest)) :
    waiting (p :: rest) = p :: (waiting rest).filter (fun q => decide (q.above ≠ p.keys)) ∧
      (waiting rest).filter (fun q => decide (q.above = p.keys)) =
        p.tree.children.map (Placement.mk p.keys) := by
  have hsorted := List.pairwise_append.mp h.sorted
  have hafter : ∀ q ∈ rest, p.keys.length ≤ q.keys.length :=
    (List.pairwise_cons.mp hsorted.2.1).1
  have hlength : ∀ q : Placement V, q.keys.length = q.above.length + 1 := by simp [Placement.keys]
  have hnodup : p.keys ∉ rest.map Placement.keys := by
    have hrest := (List.nodup_append.mp (List.map_append ▸ h.nodup)).2.1
    exact (List.nodup_cons.mp hrest).1
  constructor
  · have hp : p.above ∉ (p :: rest).map Placement.keys := by
      intro hmem
      obtain ⟨q, hq, heq⟩ := List.mem_map.mp hmem
      have hlen := congrArg List.length heq
      rw [hlength] at hlen
      rcases List.mem_cons.mp hq with rfl | hq
      · omega
      · have hle := hafter q hq
        rw [hlength, hlength] at hle
        omega
    rw [waiting, List.filter_cons_of_pos (by simpa using hp), waiting, List.filter_filter]
    refine congrArg _ (List.filter_congr fun q _ => ?_)
    simp [List.map_cons, List.mem_cons, not_or]
  · have hfront : below p.keys front = [] := by
      refine List.filter_eq_nil_iff.mpr fun q hq => ?_
      have hle := hsorted.2.2 q hq p List.mem_cons_self
      rw [decide_eq_true_eq]
      rintro heq
      rw [hlength q, heq] at hle
      omega
    have hself : p.above ≠ p.keys := by
      intro heq
      have hlen := congrArg List.length heq
      rw [hlength] at hlen
      omega
    have hsub := h.subtopics p (by simp)
    rw [below, List.filter_append, List.filter_cons_of_neg (by simpa using hself)] at hsub
    rw [← hsub, waiting, List.filter_filter]
    refine Eq.trans (List.filter_congr fun q _ => ?_) (congrArg (· ++ _) hfront).symm
    by_cases hq : q.above = p.keys <;> simp [hq, hnodup]

/-- The end of a complete list grows to the topics whose parents are before it. -/
theorem grow_suffix {topics : List (Placement V)} (h : IsComplete topics)
    {suffix : List (Placement V)} (hsuffix : suffix <:+ topics) :
    grow (suffix.map Placement.node) =
      (waiting suffix).map fun p => (join (unit '/') p.above, p.tree) := by
  induction suffix with
  | nil => rfl
  | cons p rest ih =>
    obtain ⟨front, rfl⟩ := hsuffix
    obtain ⟨hwaiting, hchildren⟩ := waiting_cons h
    have habove : ∀ q ∈ front ++ p :: rest, ∀ key ∈ q.above, IsPathKey key := fun q hq key hkey =>
      h.keys q hq key (List.mem_append_left _ hkey)
    have hp := h.keys p (by simp)
    have hjoin : ∀ q ∈ waiting rest, join (unit '/') q.above = p.node.id ↔ q.above = p.keys :=
      fun q hq => join_inj_of_isPathKey
        (habove q (by simp [(List.mem_filter.mp hq).1])) hp
    have hfilter : ∀ (test : Bool → Bool), ((waiting rest).map fun q =>
        (join (unit '/') q.above, q.tree)).filter (fun e => test (decide (e.1 = p.node.id))) =
        ((waiting rest).filter fun q => test (decide (q.above = p.keys))).map fun q =>
          (join (unit '/') q.above, q.tree) := by
      intro test
      rw [List.filter_map]
      refine congrArg _ (List.filter_congr fun q hq => ?_)
      simp only [Function.comp_apply, hjoin q hq]
    have hsame := hfilter id
    have hother := hfilter not
    simp only [id_eq, ← decide_not] at hsame hother
    rw [List.map_cons, grow, ih ⟨front ++ [p], by simp⟩, parentPath_node hp, hwaiting,
      List.map_cons, hsame, hother, hchildren, List.map_map, List.map_map]
    obtain ⟨above, key, slots, children⟩ := p
    exact congrArg (fun cs => (_, TreeNode.node key slots cs) :: _) (List.map_id _)

/-! ## Well-formed trees come back -/

/-- The topics in the order of their depth. -/
def topicsByDepth (topics : List (Placement V)) : List (Placement V) :=
  sortBy (fun p q => (p.keys.length : ℤ) - q.keys.length) topics

/-- Sorting by depth keeps the topics right below a path in their order. -/
theorem below_topicsByDepth (keys : List JsString) (topics : List (Placement V)) :
    below keys (topicsByDepth topics) = below keys topics := by
  have hperm : (topicsByDepth topics).Perm topics := sortBy_perm _ _
  have hsub : (below keys topics).Sublist (topicsByDepth topics) := by
    refine List.sublist_mergeSort ?_ ?_ ?_ List.filter_sublist
    · intro a b c
      simp only [decide_eq_true_eq]
      omega
    · intro a b
      simp only [Bool.or_eq_true, decide_eq_true_eq]
      omega
    · refine List.pairwise_of_forall_mem_list fun a ha b hb => decide_eq_true ?_
      have ha := of_decide_eq_true (List.mem_filter.mp ha).2
      have hb := of_decide_eq_true (List.mem_filter.mp hb).2
      simp [Placement.keys, ha, hb]
  have hself : below keys (below keys topics) = below keys topics := by
    rw [below, below, List.filter_filter]
    simp
  have hle := hsub.filter fun q => decide (q.above = keys)
  change (below keys (below keys topics)).Sublist _ at hle
  rw [hself] at hle
  exact (hle.eq_of_length (hperm.filter _).length_eq.symm).symm

/-- The topics of a well-formed tree are complete in the order of their depth. -/
theorem isComplete_topicsByDepth {tree : TreeNode V} (hwf : tree.wellFormed = true) :
    IsComplete (topicsByDepth (placements tree [])) where
  keys p hp := isPathKey_of_mem_placements hwf (by simp) ((sortBy_perm _ _).mem_iff.mp hp)
  nodup := by
    refine ((sortBy_perm _ _).map _).nodup_iff.mpr ?_
    have hids : ((flattenNode tree (join (unit '/') [])).map FlatNode.id).Nodup :=
      flattenNode_nodup hwf
    rw [flattenNode_eq_map hwf List.not_mem_nil, List.map_map] at hids
    exact List.Nodup.of_map (join (unit '/')) (by rwa [List.map_map])
  subtopics p hp := by
    rw [below_topicsByDepth]
    exact below_placements hwf ((sortBy_perm _ _).mem_iff.mp hp)
  sorted := sortBy_pairwise_sub (fun p : Placement V => p.keys.length) _

/-- A well-formed tree is put together from its nodes. -/
theorem unflattenToTree_flattenTree {tree : TreeNode V} (hwf : tree.wellFormed = true) :
    unflattenToTree (flattenTree tree) = some tree := by
  have hcomplete := isComplete_topicsByDepth hwf
  have hsorted : sortBy (fun a b : FlatNode V => (depth a.id : ℤ) - depth b.id) (flattenTree tree) =
      (topicsByDepth (placements tree [])).map Placement.node := by
    rw [flattenTree, show ([] : JsString) = join (unit '/') [] from rfl,
      flattenNode_eq_map hwf List.not_mem_nil, topicsByDepth, sortBy, sortBy]
    refine (List.map_mergeSort fun p hp q hq => ?_).symm
    have hkeys : ∀ p ∈ placements tree [], segments p.node.id = p.keys := fun p hp =>
      segments_node (isPathKey_of_mem_placements hwf (by simp) hp)
    rw [depth, depth, hkeys p hp, hkeys q hq]
  have hmem : ⟨[], tree⟩ ∈ topicsByDepth (placements tree []) :=
    (sortBy_perm _ _).mem_iff.mpr (self_mem_placements tree [])
  have hroot : ∀ p ∈ topicsByDepth (placements tree []), p.keys.length ≤ 1 → p = ⟨[], tree⟩ := by
    intro p hp hlen
    rcases above_of_mem_placements ((sortBy_perm _ _).mem_iff.mp hp) with rfl | hprefix
    · rfl
    · have hle := hprefix.length_le
      simp only [Placement.keys, List.nil_append, List.length_append, List.length_singleton]
        at hle hlen
      omega
  rw [unflattenToTree, hsorted]
  generalize topicsByDepth (placements tree []) = topics at hcomplete hmem hroot
  cases topics with
  | nil => exact absurd hmem List.not_mem_nil
  | cons p rest =>
    have hfirst : p = ⟨[], tree⟩ := by
      refine hroot p List.mem_cons_self ?_
      rcases List.mem_cons.mp hmem with rfl | hmem
      · exact le_rfl
      · exact (List.pairwise_cons.mp hcomplete.sorted).1 _ hmem
    have hwaiting := (waiting_cons (List.nil_append (p :: rest) ▸ hcomplete)).1
    rw [grow_suffix hcomplete (List.suffix_refl _), hwaiting, hfirst]
    rfl

/-- The nodes of a well-formed tree have the tree's key as their root. -/
theorem rootKey_of_mem_flattenTree {tree : TreeNode V} (hwf : tree.wellFormed = true)
    {f : FlatNode V} (hf : f ∈ flattenTree tree) : rootKey f.id = tree.key := by
  obtain ⟨rest, hrest⟩ := segments_of_wellFormed hwf hf
  rw [rootKey, hrest]
  rfl

/-- Nodes under a new root make one more group. -/
theorem groupByRoot_append_group {nodes more : List (FlatNode V)} {key : JsString}
    (hnew : group nodes key = []) (hmore : ∀ f ∈ more, rootKey f.id = key) (hne : more ≠ []) :
    groupByRoot (nodes ++ more) = groupByRoot nodes ++ [(key, more)] := by
  have hget := get_groupByRoot nodes key
  rw [if_pos hnew] at hget
  induction more using List.reverseRecOn with
  | nil => exact absurd rfl hne
  | append_singleton more f ih =>
    have hf : rootKey f.id = key := hmore f (by simp)
    rw [← List.append_assoc, groupByRoot_append, hf]
    by_cases hmore' : more = []
    · subst hmore'
      rw [List.append_nil, hget, Record.mapSet, if_neg (by simp [Record.has, hget])]
      rfl
    · rw [ih (fun g hg => hmore g (List.mem_append_left _ hg)) hmore', Record.get_append, hget]
      have hhas : Record.has (groupByRoot nodes ++ [(key, more)]) key = true := by
        simp [Record.has, Record.get_append, hget, Record.get]
      rw [Record.mapSet, if_pos hhas, List.map_append,
        Record.replace_of_not_has (by simp [Record.has, hget])]
      simp [Record.get]

/-- The groups of the nodes of well-formed trees are those of the trees. -/
theorem groupByRoot_flattenTrees {trees : List (TreeNode V)} (h : WellFormedTrees trees) :
    groupByRoot (flattenTrees trees) = trees.map fun tree => (tree.key, flattenTree tree) := by
  obtain ⟨hkeys, hwf⟩ := h
  have hall := allWellFormed_iff.mp hwf
  induction trees using List.reverseRecOn with
  | nil => rfl
  | append_singleton trees tree ih =>
    have hsplit : flattenTrees (trees ++ [tree]) = flattenTrees trees ++ flattenTree tree := by
      simp [flattenTrees, flattenTree, flattenChildren_eq_flatMap]
    rw [List.map_append, List.nodup_append] at hkeys
    have hrest : ∀ t ∈ trees, t.wellFormed = true := fun t ht => hall t (by simp [ht])
    have htree := hall tree (by simp)
    have hnew : group (flattenTrees trees) tree.key = [] := by
      refine List.filter_eq_nil_iff.mpr fun f hf => ?_
      rw [flattenTrees, flattenChildren_eq_flatMap] at hf
      obtain ⟨t, ht, hf⟩ := List.mem_flatMap.mp hf
      rw [decide_eq_true_eq, rootKey_of_mem_flattenTree (hrest t ht) hf]
      exact hkeys.2.2 _ (List.mem_map_of_mem ht) _ (by simp)
    rw [hsplit, groupByRoot_append_group hnew (fun f hf => rootKey_of_mem_flattenTree htree hf)
        (List.ne_nil_of_length_pos (length_flattenNode_pos tree [])),
      ih hkeys.1 (allWellFormed_iff.mpr hrest) hrest, List.map_append]
    rfl

/-- Putting together the nodes of well-formed trees gives the trees. -/
theorem unflattenToTrees_flattenTrees {trees : List (TreeNode V)} (h : WellFormedTrees trees) :
    unflattenToTrees (flattenTrees trees) = trees := by
  rw [unflattenToTrees, groupByRoot_flattenTrees h, List.filterMap_map]
  have hsome : ∀ tree ∈ trees, unflattenToTree (flattenTree tree) = some tree := fun tree htree =>
    unflattenToTree_flattenTree (allWellFormed_iff.mp h.2 tree htree)
  exact (List.filterMap_congr hsome).trans (List.filterMap_some)

/-- The nodes of well-formed trees are those of their topics, one for each, under the
key paths joined by slashes, which differ; and they are put together to the trees. -/
theorem flatten_roundTrip {trees : List (TreeNode V)} (h : WellFormedTrees trees) :
    unflattenToTrees (flattenTrees trees) = trees ∧
      flattenTrees trees = (placementsAll trees []).map Placement.node ∧
      ((flattenTrees trees).map FlatNode.id).Nodup :=
  ⟨unflattenToTrees_flattenTrees h, flattenTrees_eq_map h.2, (isFlattened_flattenTrees h).nodup⟩

/-- Two topics, the name of one beginning with that of the other, and two subtopics of
the first with such names. -/
def prefixTrees : List (TreeNode Bool) :=
  [.node (js "a") [] [.node (js "ab") [(js "on", true)] [], .node (js "a") [] []],
    .node (js "ab") [] []]

/-- Names that begin with one another do not confuse the round trip. -/
theorem flatten_roundTrip_prefixTrees :
    WellFormedTrees prefixTrees ∧ unflattenToTrees (flattenTrees prefixTrees) = prefixTrees ∧
      flattenTrees prefixTrees = (placementsAll prefixTrees []).map Placement.node ∧
      ((flattenTrees prefixTrees).map FlatNode.id).Nodup :=
  ⟨by decide, flatten_roundTrip (by decide)⟩

end T3x.Semantic
