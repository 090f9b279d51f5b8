import T3x.Js.Order

/-!
# Semantic trees and their flat nodes

A tree of topics flattens to nodes that are named by their paths, and flat nodes
are put together to trees again. Putting together hangs every node below the
node of its parent path, so the nodes whose ancestors are all there come back
and the others are lost.
-/

namespace T3x.Semantic

open Js

variable {V : Type}

/-- A topic: its key, its slots and its subtopics. -/
inductive TreeNode (V : Type) where
  | node (key : JsString) (slots : List (JsString × V)) (children : List (TreeNode V))

/-- The key of a topic. -/
def TreeNode.key : TreeNode V → JsString
  | .node key _ _ => key

/-- The slots of a topic. -/
def TreeNode.slots : TreeNode V → Record V
  | .node _ slots _ => slots

/-- The subtopics of a topic. -/
def TreeNode.children : TreeNode V → List (TreeNode V)
  | .node _ _ children => children

/-- A node of a flattened tree. -/
structure FlatNode (V : Type) where
  /-- The path of the node. -/
  id : JsString
  /-- The key of the topic. -/
  type : JsString
  /-- The slots of the topic. -/
  slots : Record V

/-! ## Flattening -/

/-- The path of a child below a path. -/
def extendPath (path key : JsString) : JsString :=
  if path = [] then key else path ++ unit '/' :: key

mutual

/-- `flattenNode(node, parentPath, out)`: the nodes that it appends. -/
def flattenNode : TreeNode V → JsString → List (FlatNode V)
  | .node key slots children, parentPath =>
    ⟨extendPath parentPath key, key, slots⟩ :: flattenChildren children (extendPath parentPath key)

/-- The nodes of several topics below one path. -/
def flattenChildren : List (TreeNode V) → JsString → List (FlatNode V)
  | [], _ => []
  | child :: children, path => flattenNode child path ++ flattenChildren children path

end

/-- `flattenTree(tree)`. -/
def flattenTree (tree : TreeNode V) : List (FlatNode V) := flattenNode tree []

/-- `flattenTrees(trees)`. -/
def flattenTrees (trees : List (TreeNode V)) : List (FlatNode V) := flattenChildren trees []

/-! ## Putting together -/

/-- `id.split('/')`. -/
def segments (id : JsString) : List JsString := split (unit '/') id

/-- The depth of a path. -/
def depth (id : JsString) : ℕ := (segments id).length

/-- The path above a path. -/
def parentPath (id : JsString) : JsString := join (unit '/') (segments id).dropLast

/-- The nodes of a list as topics, each with the path under which it still looks
for its parent: a topic is a child of the last node before it whose path is its
parent path, and children stand in the order of the list. -/
def grow : List (FlatNode V) → List (JsString × TreeNode V)
  | [] => []
  | f :: rest =>
    let pending := grow rest
    (parentPath f.id,
      .node f.type f.slots ((pending.filter fun p => decide (p.1 = f.id)).map Prod.snd)) ::
      pending.filter fun p => decide (p.1 ≠ f.id)

/-- `unflattenToTree(flatNodes)`: the topic of the first of the shallowest nodes,
with what hangs below it; an empty list has none. -/
def unflattenToTree (flatNodes : List (FlatNode V)) : Option (TreeNode V) :=
  ((grow (sortBy (fun a b => (depth a.id : ℤ) - depth b.id) flatNodes)).head?).map Prod.snd

/-- The first segment of a path. -/
def rootKey (id : JsString) : JsString := (segments id).headD []

/-- The nodes by the first segment of their paths. -/
def groupByRoot (flatNodes : List (FlatNode V)) : Record (List (FlatNode V)) :=
  flatNodes.foldl (fun groups f =>
    Record.mapSet groups (rootKey f.id) ((Record.get groups (rootKey f.id)).getD [] ++ [f])) []

/-- `unflattenToTrees(flatNodes)`. -/
def unflattenToTrees (flatNodes : List (FlatNode V)) : List (TreeNode V) :=
  (groupByRoot flatNodes).filterMap fun group => unflattenToTree group.2

/-! ## Paths -/

/-- The segments above a child: none at the root. -/
def parentSegments (path : JsString) : List JsString := if path = [] then [] else segments path

/-- The path of a child has the segments above it and its key. -/
theorem segments_extendPath {path key : JsString} (hkey : unit '/' ∉ key) :
    segments (extendPath path key) = parentSegments path ++ [key] := by
  unfold extendPath parentSegments
  split_ifs
  · exact split_of_not_mem hkey
  · rw [segments, split_append_cons, split_of_not_mem hkey]
    rfl

/-- Joining the segments above a child gives the path above it. -/
theorem join_parentSegments (path : JsString) :
    join (unit '/') (parentSegments path) = path := by
  unfold parentSegments
  split_ifs with h
  · rw [h]
    rfl
  · exact join_split _ _

/-- The path above the path of a child. -/
theorem parentPath_extendPath {path key : JsString} (hkey : unit '/' ∉ key) :
    parentPath (extendPath path key) = path := by
  rw [parentPath, segments_extendPath hkey, List.dropLast_concat, join_parentSegments]

/-- The path of a child with a non-empty key is not empty. -/
theorem extendPath_ne_nil {path key : JsString} (hkey : key ≠ []) : extendPath path key ≠ [] := by
  unfold extendPath
  split_ifs <;> simp [hkey]

/-- The segments of a non-empty path stand above its children. -/
theorem parentSegments_extendPath {path key : JsString} (hkey : key ≠ [])
    (hslash : unit '/' ∉ key) :
    parentSegments (extendPath path key) = parentSegments path ++ [key] := by
  rw [parentSegments, if_neg (extendPath_ne_nil hkey), segments_extendPath hslash]

/-- Every path has a depth. -/
theorem depth_pos (id : JsString) : 0 < depth id :=
  List.length_pos_of_ne_nil (split_ne_nil _ _)

/-- The flat nodes whose path is the path of their type below some path. -/
structure IsPlaced (f : FlatNode V) : Prop where
  /-- The type is a non-empty key. -/
  type_ne : f.type ≠ []
  /-- The type holds no slash. -/
  slash : unit '/' ∉ f.type
  /-- The path ends in the type. -/
  path : extendPath (parentPath f.id) f.type = f.id

/-- The path of a placed node is not empty. -/
theorem IsPlaced.id_ne {f : FlatNode V} (h : IsPlaced f) : f.id ≠ [] :=
  h.path ▸ extendPath_ne_nil h.type_ne

/-- The segments of a placed node. -/
theorem IsPlaced.segments {f : FlatNode V} (h : IsPlaced f) :
    segments f.id = parentSegments (parentPath f.id) ++ [f.type] := by
  rw [← segments_extendPath h.slash, h.path]

/-- The parent path of a placed node below the root is not empty. -/
theorem IsPlaced.parentPath_ne {f : FlatNode V} (h : IsPlaced f) (hdepth : 2 ≤ depth f.id) :
    parentPath f.id ≠ [] := by
  intro hnil
  have hseg := h.segments
  rw [hnil] at hseg
  simp [depth, hseg, parentSegments] at hdepth

/-- A placed node below the root stands one segment below its parent path. -/
theorem IsPlaced.depth_parent {f : FlatNode V} (h : IsPlaced f) (hdepth : 2 ≤ depth f.id) :
    depth f.id = depth (parentPath f.id) + 1 := by
  unfold depth
  rw [h.segments, parentSegments, if_neg (h.parentPath_ne hdepth), List.length_append]
  rfl

/-! ## Every node of a list is in some topic that it grows to -/

/-- The nodes of several topics are the nodes of each. -/
theorem flattenChildren_eq_flatMap (trees : List (TreeNode V)) (path : JsString) :
    flattenChildren trees path = trees.flatMap fun tree => flattenNode tree path := by
  induction trees with
  | nil => rfl
  | cons tree trees ih => rw [flattenChildren, ih, List.flatMap_cons]

/-- The nodes that the grown topics flatten to, each below the path under which it
looks for its parent, are the nodes of the list. -/
theorem flatten_grow {nodes : List (FlatNode V)} (h : ∀ f ∈ nodes, IsPlaced f) :
    ((grow nodes).flatMap fun p => flattenNode p.2 p.1).Perm nodes := by
  induction nodes with
  | nil => exact List.Perm.refl _
  | cons f rest ih =>
    have hrest := ih fun g hg => h g (List.mem_cons_of_mem _ hg)
    have hchildren : flattenChildren
        (((grow rest).filter fun p => decide (p.1 = f.id)).map Prod.snd) f.id =
        ((grow rest).filter fun p => decide (p.1 = f.id)).flatMap fun p => flattenNode p.2 p.1 := by
      rw [flattenChildren_eq_flatMap, List.flatMap_map]
      refine List.flatMap_congr fun p hp => ?_
      rw [of_decide_eq_true (List.mem_filter.mp hp).2]
    have hsplit : ((grow rest).filter (fun p => decide (p.1 = f.id)) ++
        (grow rest).filter fun p => decide (p.1 ≠ f.id)).Perm (grow rest) := by
      have hfilter := List.filter_append_perm (fun p => decide (p.1 = f.id)) (grow rest)
      simpa using hfilter
    simp only [grow, List.flatMap_cons, flattenNode, (h f List.mem_cons_self).path]
    rw [hchildren, List.cons_append, ← List.flatMap_append]
    exact ((hsplit.flatMap_right _).trans hrest).cons f

/-- A grown topic is grown from a node of the list before which no node stands at
its parent path, and the first topic from the first node. -/
theorem mem_grow {nodes : List (FlatNode V)} {p : JsString × TreeNode V} (h : p ∈ grow nodes) :
    ∃ before f after, nodes = before ++ f :: after ∧ p.1 = parentPath f.id ∧
      p.2.key = f.type ∧ ∀ g ∈ before, g.id ≠ p.1 := by
  induction nodes with
  | nil => simp [grow] at h
  | cons f rest ih =>
    simp only [grow, List.mem_cons, List.mem_filter, decide_eq_true_eq] at h
    rcases h with rfl | ⟨hmem, hne⟩
    · exact ⟨[], f, rest, rfl, rfl, rfl, by simp⟩
    · obtain ⟨before, g, after, rfl, hpath, hkey, hbefore⟩ := ih hmem
      refine ⟨f :: before, g, after, rfl, hpath, hkey, fun x hx => ?_⟩
      rcases List.mem_cons.mp hx with rfl | hx
      · exact fun heq => hne heq.symm
      · exact hbefore x hx

/-- The induction over a topic, from its subtopics. -/
@[elab_as_elim] theorem TreeNode.induct {P : TreeNode V → Prop}
    (node : ∀ key slots children, (∀ child ∈ children, P child) → P (.node key slots children)) :
    ∀ tree, P tree
  | .node key slots children => node key slots children (go children)
where
  /-- The induction over the subtopics. -/
  go : ∀ children : List (TreeNode V), ∀ child ∈ children, P child
    | [], _, h => absurd h List.not_mem_nil
    | c :: children, child, h => by
      rcases List.mem_cons.mp h with h | h
      · exact h ▸ TreeNode.induct node c
      · exact go children child h

/-- The nodes of a topic: its own and those of its subtopics below its path. -/
theorem mem_flattenNode {key : JsString} {slots : Record V} {children : List (TreeNode V)}
    {path : JsString} {x : FlatNode V} :
    x ∈ flattenNode (.node key slots children) path ↔
      x = ⟨extendPath path key, key, slots⟩ ∨
        ∃ child ∈ children, x ∈ flattenNode child (extendPath path key) := by
  rw [flattenNode, List.mem_cons, flattenChildren_eq_flatMap, List.mem_flatMap]

/-- A path below another: it goes on with a slash. -/
def Above (a id : JsString) : Prop := ∃ rest, id = a ++ unit '/' :: rest

/-- What is above the path of a child is its path or above that. -/
theorem above_append_iff {a path key : JsString} (hkey : unit '/' ∉ key) :
    Above a (path ++ unit '/' :: key) ↔ a = path ∨ Above a path := by
  constructor
  · rintro ⟨rest, h⟩
    rcases List.append_eq_append_iff.mp h with ⟨c, rfl, hc⟩ | ⟨c, rfl, hc⟩
    · cases c with
      | nil => exact .inl (List.append_nil _)
      | cons u c =>
        rw [List.cons_append, List.cons.injEq] at hc
        exact absurd (hc.2 ▸ List.mem_append_right c List.mem_cons_self) hkey
    · cases c with
      | nil => exact .inl (List.append_nil _).symm
      | cons u c =>
        rw [List.cons_append, List.cons.injEq] at hc
        exact .inr ⟨c, by rw [← hc.1]⟩
  · rintro (rfl | ⟨rest, rfl⟩)
    · exact ⟨key, rfl⟩
    · exact ⟨rest ++ unit '/' :: key, by simp⟩

/-- What is above what is above a path is above the path. -/
theorem Above.trans {a b c : JsString} (hab : Above a b) (hbc : Above b c) : Above a c := by
  obtain ⟨r, rfl⟩ := hab
  obtain ⟨r', rfl⟩ := hbc
  exact ⟨r ++ unit '/' :: r', by simp⟩

/-- A path above another has its first segment. -/
theorem Above.rootKey_eq {a id : JsString} (h : Above a id) : rootKey a = rootKey id := by
  obtain ⟨rest, rfl⟩ := h
  rw [rootKey, rootKey, segments, segments, split_append_cons]
  obtain ⟨u, s, hus⟩ := List.exists_cons_of_ne_nil (split_ne_nil (unit '/') a)
  rw [hus]
  rfl

/-- A path above another is shallower. -/
theorem Above.depth_lt {a id : JsString} (h : Above a id) : depth a < depth id := by
  obtain ⟨rest, rfl⟩ := h
  rw [depth, depth, segments, segments, split_append_cons, List.length_append]
  have hpos := depth_pos rest
  unfold depth segments at hpos
  omega

/-- The parent path of a placed node below the root is above it. -/
theorem IsPlaced.above_parent {f : FlatNode V} (h : IsPlaced f) (hdepth : 2 ≤ depth f.id) :
    Above (parentPath f.id) f.id := by
  refine ⟨f.type, ?_⟩
  conv_lhs => rw [← h.path]
  rw [extendPath, if_neg (h.parentPath_ne hdepth)]

/-- A node at the root has no parent path. -/
theorem parentPath_of_depth_one {id : JsString} (h : depth id = 1) : parentPath id = [] := by
  have hnil : (segments id).dropLast = [] := by
    apply List.eq_nil_of_length_eq_zero
    rw [List.length_dropLast]
    unfold depth at h
    omega
  rw [parentPath, hnil]
  rfl

/-- The path of a node of a topic is the topic's path or lies below it. -/
theorem mem_flattenNode_path {tree : TreeNode V} {path : JsString} {x : FlatNode V}
    (hne : ∀ y ∈ flattenNode tree path, y.type ≠ []) (h : x ∈ flattenNode tree path) :
    x.id = extendPath path tree.key ∨ Above (extendPath path tree.key) x.id := by
  induction tree using TreeNode.induct generalizing path x with
  | node key slots children ih =>
    rcases mem_flattenNode.mp h with rfl | ⟨child, hchild, hx⟩
    · exact .inl rfl
    · have hkey : key ≠ [] := hne _ (mem_flattenNode.mpr (.inl rfl))
      have habove : Above (extendPath path key) (extendPath (extendPath path key) child.key) := by
        rw [extendPath.eq_def (extendPath path key), if_neg (extendPath_ne_nil hkey)]
        exact ⟨child.key, rfl⟩
      right
      rcases ih child hchild (fun y hy => hne y (mem_flattenNode.mpr (.inr ⟨child, hchild, hy⟩))) hx
        with heq | hbelow
      · rw [heq]
        exact habove
      · exact habove.trans hbelow

/-- What is above a node of a topic is the path of another, or the path under which
the topic stands, or above that. -/
theorem above_mem_flattenNode {tree : TreeNode V} {path : JsString} {x : FlatNode V}
    (hkeys : ∀ y ∈ flattenNode tree path, y.type ≠ [] ∧ unit '/' ∉ y.type)
    (h : x ∈ flattenNode tree path) {a : JsString} (ha : Above a x.id) :
    (∃ y ∈ flattenNode tree path, y.id = a) ∨ path ≠ [] ∧ (a = path ∨ Above a path) := by
  induction tree using TreeNode.induct generalizing path x with
  | node key slots children ih =>
    obtain ⟨hkey, hslash⟩ := hkeys ⟨extendPath path key, key, slots⟩ (mem_flattenNode.mpr (.inl rfl))
    have hown : Above a (extendPath path key) → path ≠ [] ∧ (a = path ∨ Above a path) := by
      intro habove
      by_cases hpath : path = []
      · rw [extendPath, if_pos hpath] at habove
        obtain ⟨rest, rfl⟩ := habove
        simp at hslash
      · rw [extendPath, if_neg hpath] at habove
        exact ⟨hpath, (above_append_iff hslash).mp habove⟩
    rcases mem_flattenNode.mp h with rfl | ⟨child, hchild, hx⟩
    · exact .inr (hown ha)
    · have hsub : ∀ y ∈ flattenNode child (extendPath path key),
          y ∈ flattenNode (.node key slots children) path :=
        fun y hy => mem_flattenNode.mpr (.inr ⟨child, hchild, hy⟩)
      rcases ih child hchild (fun y hy => hkeys y (hsub y hy)) hx ha with
        ⟨y, hy, hid⟩ | ⟨-, rfl | habove⟩
      · exact .inl ⟨y, hsub y hy, hid⟩
      · exact .inl ⟨_, mem_flattenNode.mpr (.inl rfl), rfl⟩
      · exact .inr (hown habove)

/-! ## What comes back -/

/-- A path all of whose ancestors are paths of the nodes. -/
def Anchored (nodes : List (FlatNode V)) (id : JsString) : Prop :=
  ∀ a, Above a id → ∃ g ∈ nodes, g.id = a

/-- The nodes of a list in ascending depth with one node at the root, in front. -/
structure IsRooted (f : FlatNode V) (rest : List (FlatNode V)) : Prop where
  /-- The first node is at the root. -/
  depth_root : depth f.id = 1
  /-- No other node is. -/
  depth_rest : ∀ g ∈ rest, 2 ≤ depth g.id
  /-- The depths ascend. -/
  sorted : (f :: rest).Pairwise fun a b => depth a.id ≤ depth b.id

/-- A topic that finds no parent has no node with all its ancestors. -/
theorem not_anchored_of_pending {f : FlatNode V} {rest : List (FlatNode V)}
    (hrooted : IsRooted f rest) (hplaced : ∀ g ∈ rest, IsPlaced g) {p : JsString × TreeNode V}
    (hp : p ∈ grow rest) (hne : p.1 ≠ f.id) {x : FlatNode V} (hx : x ∈ flattenNode p.2 p.1)
    (hkeys : ∀ y ∈ flattenNode p.2 p.1, y.type ≠ []) : ¬ Anchored (f :: rest) x.id := by
  obtain ⟨before, g, after, hrest, hpath, hkey, hbefore⟩ := mem_grow hp
  have hg : g ∈ rest := by simp [hrest]
  have hdepth := hrooted.depth_rest g hg
  have hparent := (hplaced g hg).depth_parent hdepth
  have htop : extendPath p.1 p.2.key = g.id := by rw [hpath, hkey, (hplaced g hg).path]
  have habove : Above p.1 x.id := by
    have hown : Above p.1 g.id := hpath ▸ (hplaced g hg).above_parent hdepth
    rcases mem_flattenNode_path hkeys hx with heq | hbelow
    · rw [heq, htop]
      exact hown
    · rw [htop] at hbelow
      exact hown.trans hbelow
  intro hanchored
  obtain ⟨h, hmem, hid⟩ := hanchored p.1 habove
  -- A node at the parent path would be shallower, hence before this one.
  rcases List.mem_cons.mp hmem with rfl | hmem
  · exact hne hid.symm
  · rw [hrest, List.mem_append, List.mem_cons] at hmem
    have hshallow : depth h.id < depth g.id := by rw [hid, hparent, hpath]; omega
    rcases hmem with hmem | rfl | hmem
    · exact hbefore h hmem hid
    · omega
    · have hsorted := (List.pairwise_cons.mp hrooted.sorted).2
      rw [hrest, List.pairwise_append] at hsorted
      have hle := (List.pairwise_cons.mp hsorted.2.1).1 h hmem
      omega

open Classical in
/-- A rooted list of placed nodes grows to a topic that flattens to the nodes with
all their ancestors. -/
theorem flattenTree_grow {f : FlatNode V} {rest : List (FlatNode V)} (hrooted : IsRooted f rest)
    (hplaced : ∀ g ∈ f :: rest, IsPlaced g) :
    ∃ tree, ((grow (f :: rest)).head?).map Prod.snd = some tree ∧
      (flattenTree tree).Perm
        ((f :: rest).filter fun g => decide (Anchored (f :: rest) g.id)) := by
  have htotal := flatten_grow hplaced
  have hgrow : grow (f :: rest) =
      (parentPath f.id, .node f.type f.slots
        (((grow rest).filter fun p => decide (p.1 = f.id)).map Prod.snd)) ::
      (grow rest).filter fun p => decide (p.1 ≠ f.id) := rfl
  generalize TreeNode.node f.type f.slots
    (((grow rest).filter fun p => decide (p.1 = f.id)).map Prod.snd) = tree at hgrow
  rw [hgrow, parentPath_of_depth_one hrooted.depth_root, List.flatMap_cons] at htotal
  refine ⟨tree, by rw [hgrow]; rfl, ?_⟩
  have hkeys : ∀ y ∈ flattenNode tree [], y.type ≠ [] ∧ unit '/' ∉ y.type := by
    intro y hy
    have hplacedY := hplaced y (htotal.mem_iff.mp (List.mem_append_left _ hy))
    exact ⟨hplacedY.type_ne, hplacedY.slash⟩
  have hhead : (flattenNode tree []).filter
      (fun g => decide (Anchored (f :: rest) g.id)) = flattenNode tree [] := by
    refine List.filter_eq_self.mpr fun x hx => decide_eq_true ?_
    intro a ha
    rcases above_mem_flattenNode hkeys hx ha with ⟨y, hy, hid⟩ | ⟨hnil, -⟩
    · exact ⟨y, htotal.mem_iff.mp (List.mem_append_left _ hy), hid⟩
    · exact absurd rfl hnil
  have htail : (((grow rest).filter fun p => decide (p.1 ≠ f.id)).flatMap
      fun p => flattenNode p.2 p.1).filter
      (fun g => decide (Anchored (f :: rest) g.id)) = [] := by
    refine List.filter_eq_nil_iff.mpr fun x hx => ?_
    rw [decide_eq_true_eq]
    obtain ⟨p, hp, hxp⟩ := List.mem_flatMap.mp hx
    obtain ⟨hp, hne⟩ := List.mem_filter.mp hp
    refine not_anchored_of_pending hrooted (fun g hg => hplaced g (List.mem_cons_of_mem _ hg)) hp
      (of_decide_eq_true hne) hxp fun y hy => ?_
    have hmem : y ∈ ((grow rest).filter fun p => decide (p.1 ≠ f.id)).flatMap
        fun p => flattenNode p.2 p.1 :=
      List.mem_flatMap.mpr ⟨p, List.mem_filter.mpr ⟨hp, hne⟩, hy⟩
    exact (hplaced y (htotal.mem_iff.mp (List.mem_append_right _ hmem))).type_ne
  have hfilter := htotal.filter fun g => decide (Anchored (f :: rest) g.id)
  rw [List.filter_append, hhead, htail, List.append_nil] at hfilter
  exact hfilter

/-- A node whose chain of ancestors consists of placed nodes is in a topic that the
list grows to, and that topic is grown from the node or one above it. -/
theorem mem_grow_of_placed {nodes : List (FlatNode V)} {x : FlatNode V} (hx : x ∈ nodes)
    (hne : ∀ h ∈ nodes, h.id ≠ [])
    (hplaced : ∀ h ∈ nodes, h.id = x.id ∨ Above h.id x.id → IsPlaced h) :
    ∃ p ∈ grow nodes, x ∈ flattenNode p.2 p.1 ∧
      ∃ before r after, nodes = before ++ r :: after ∧ p.1 = parentPath r.id ∧
        (r.id = x.id ∨ Above r.id x.id) ∧ (∀ g ∈ before, g.id ≠ p.1) ∧
        (before = [] → (grow nodes).head? = some p) := by
  induction nodes with
  | nil => simp at hx
  | cons h rest ih =>
    rcases List.mem_cons.mp hx with rfl | hx
    · refine ⟨_, List.mem_cons_self, ?_, [], x, rest, rfl, rfl, .inl rfl, by simp, fun _ => rfl⟩
      refine mem_flattenNode.mpr (.inl ?_)
      rw [(hplaced x List.mem_cons_self (.inl rfl)).path]
    · obtain ⟨p, hp, hxp, before, r, after, hrest, hpath, hr, hbefore, -⟩ := ih hx
        (fun g hg => hne g (List.mem_cons_of_mem _ hg))
        (fun g hg => hplaced g (List.mem_cons_of_mem _ hg))
      by_cases hid : p.1 = h.id
      · -- The topic hangs below this node.
        have hrmem : r ∈ rest := by simp [hrest]
        have hrplaced := hplaced r (List.mem_cons_of_mem _ hrmem) hr
        have hdepth : 2 ≤ depth r.id := by
          by_contra hlt
          have hone : depth r.id = 1 := by have := depth_pos r.id; omega
          rw [hpath, parentPath_of_depth_one hone] at hid
          exact hne h List.mem_cons_self hid.symm
        have habove : Above h.id x.id := by
          have hown := hrplaced.above_parent hdepth
          rw [← hpath, hid] at hown
          rcases hr with heq | hr
          · exact heq ▸ hown
          · exact hown.trans hr
        have hplacedH := hplaced h List.mem_cons_self (.inr habove)
        refine ⟨_, List.mem_cons_self, ?_, [], h, rest, rfl, rfl, .inr habove, by simp,
          fun _ => rfl⟩
        refine mem_flattenNode.mpr (.inr ⟨p.2, ?_, ?_⟩)
        · exact List.mem_map.mpr ⟨p, List.mem_filter.mpr ⟨hp, decide_eq_true hid⟩, rfl⟩
        · rw [hplacedH.path, ← hid]
          exact hxp
      · refine ⟨p, List.mem_cons_of_mem _ (List.mem_filter.mpr ⟨hp, decide_eq_true hid⟩), hxp,
          h :: before, r, after, by rw [hrest]; rfl, hpath, hr, fun g hg => ?_, by simp⟩
        rcases List.mem_cons.mp hg with rfl | hg
        · exact fun heq => hid heq.symm
        · exact hbefore g hg

/-- A node of a rooted list with all its ancestors, all of them placed, is in the
topic that the list grows to. -/
theorem mem_flattenTree_of_anchored {f : FlatNode V} {rest : List (FlatNode V)}
    (hrooted : IsRooted f rest) (hne : ∀ h ∈ f :: rest, h.id ≠ []) {x : FlatNode V}
    (hx : x ∈ f :: rest) (hplaced : ∀ h ∈ f :: rest, h.id = x.id ∨ Above h.id x.id → IsPlaced h)
    (hanchored : Anchored (f :: rest) x.id) :
    ∃ tree, ((grow (f :: rest)).head?).map Prod.snd = some tree ∧ x ∈ flattenTree tree := by
  obtain ⟨p, -, hxp, before, r, after, hnodes, hpath, hr, hbefore, hfirst⟩ :=
    mem_grow_of_placed hx hne hplaced
  have hrmem : r ∈ f :: rest := by rw [hnodes]; simp
  by_cases hdepth : 2 ≤ depth r.id
  · -- The parent of `r` is in the list, before `r`, so the topic has found it.
    exfalso
    have hrplaced := hplaced r hrmem hr
    have habove : Above p.1 x.id := by
      have hown := hpath ▸ hrplaced.above_parent hdepth
      rcases hr with heq | hr
      · exact heq ▸ hown
      · exact hown.trans hr
    obtain ⟨g, hg, hid⟩ := hanchored p.1 habove
    have hshallow : depth g.id < depth r.id := by
      have hparent := hrplaced.depth_parent hdepth
      rw [hid, hparent, hpath]
      omega
    have hsorted := hrooted.sorted
    rw [hnodes, List.mem_append, List.mem_cons] at hg
    rw [hnodes, List.pairwise_append] at hsorted
    rcases hg with hg | rfl | hg
    · exact hbefore g hg hid
    · omega
    · have hle := (List.pairwise_cons.mp hsorted.2.1).1 g hg
      omega
  · -- Only the first node is at the root.
    have hone : depth r.id = 1 := by have := depth_pos r.id; omega
    have hbefore : before = [] := by
      cases before with
      | nil => rfl
      | cons g before =>
        have hrest : r ∈ rest := by
          rw [(List.cons.inj hnodes).2]
          simp
        have hdeep := hrooted.depth_rest r hrest
        omega
    refine ⟨p.2, by rw [hfirst hbefore]; rfl, ?_⟩
    rw [hpath, parentPath_of_depth_one hone] at hxp
    exact hxp

end T3x.Semantic
