import T3x.Semantic.Symmetry

/-!
# The laws of a merge without conflicts

Where nothing is in conflict, a path above one that both sides have is kept too.
So the nodes below a root that is not kept come from one side alone, and both
merges put them together alike.
-/

namespace T3x.Semantic

open Js ThreeWay

variable {base source target : SemanticContent}

/-- A prepared merge reports no conflict exactly when no path is in conflict. -/
theorem no_conflicts_iff : (prepareMerge base source target).conflicts = [] ↔
    ∀ path slotConflicts,
      (frameMaps base source target).classOf path ≠ .conflict slotConflicts := by
  rw [← List.map_eq_nil_iff (f := PathConflict.path), List.eq_nil_iff_forall_not_mem]
  simp only [mem_conflicts, not_exists]

section

variable (hb : base.Ordinary) (hs : source.Ordinary) (ht : target.Ordinary)
  (hconflicts : (prepareMerge base source target).conflicts = [])

include hb hs ht hconflicts

/-- Without conflicts, a root below which both sides have nodes is kept by itself. -/
theorem root_autoKept {path path' : JsString}
    (hsrc : Record.has (frameMaps base source target).src path = true)
    (htgt : Record.has (frameMaps base source target).tgt path' = true)
    (hroot : rootKey path = rootKey path') :
    rootKey path ∈ (prepareMerge base source target).autoKept := by
  have hmaps := ordinary_frameMaps hb hs ht
  have hsrcRoot := hmaps.src.has_root hsrc
  have htgtRoot := hmaps.tgt.has_root htgt
  rw [← hroot] at htgtRoot
  rw [mem_autoKept]
  rcases autoKept_or_conflict hsrcRoot htgtRoot with hauto | ⟨slotConflicts, hconflict⟩
  · exact hauto
  · exact absurd hconflict (no_conflicts_iff.mp hconflicts _ _)

/-- Without conflicts, the nodes below a root that is not kept come from one side. -/
theorem group_keptFrames_of_no_root {key : JsString}
    (hroot : ∀ f ∈ keptFrames base source target, f.id ≠ key) :
    group (keptFrames base source target) key = group (keptFrames base target source) key := by
  have hmaps := ordinary_frameMaps hb hs ht
  have hids := map_id_keptFrames hmaps.wellFormed
  have hnone : key ∉ (prepareMerge base source target).autoKept := by
    intro hkey
    have hmem : key ∈ (keptFrames base source target).map FlatNode.id := by
      rw [hids]
      exact List.mem_append_left _ (List.mem_append_left _ hkey)
    obtain ⟨f, hf, hid⟩ := List.mem_map.mp hmem
    exact hroot f hf hid
  have hauto : ∀ (b s t : SemanticContent), b.Ordinary → s.Ordinary → t.Ordinary →
      (∀ path, path ∈ (prepareMerge b s t).autoKept →
        path ∈ (prepareMerge base source target).autoKept) →
      group ((frameMaps b s t).autoKeptFrames (prepareMerge b s t).autoKept) key = [] := by
    intro b s t hb' hs' ht' hsame
    refine List.filter_eq_nil_iff.mpr fun f hf hkey => hnone ?_
    have hmem : f.id ∈ (prepareMerge b s t).autoKept := by
      rw [← map_id_autoKeptFrames (ordinary_frameMaps hb' hs' ht').wellFormed fun _ => mem_autoKept.mp]
      exact List.mem_map.mpr ⟨f, hf, rfl⟩
    obtain ⟨hsrc, htgt⟩ := both_of_autoKept (mem_autoKept.mp (hsame _ hmem))
    rw [← of_decide_eq_true hkey]
    exact root_autoKept hb hs ht hconflicts hsrc htgt rfl
  have hsides : group (framesAt (frameMaps base source target).src
        (prepareMerge base source target).onlyInSource) key = [] ∨
      group (framesAt (frameMaps base source target).tgt
        (prepareMerge base source target).onlyInTarget) key = [] := by
    by_contra hboth
    rw [not_or] at hboth
    obtain ⟨f, hf⟩ := List.exists_mem_of_ne_nil _ hboth.1
    obtain ⟨g, hg⟩ := List.exists_mem_of_ne_nil _ hboth.2
    obtain ⟨hf, hfkey⟩ := List.mem_filter.mp hf
    obtain ⟨hg, hgkey⟩ := List.mem_filter.mp hg
    obtain ⟨path, hpath, hget⟩ := List.mem_filterMap.mp hf
    obtain ⟨path', hpath', hget'⟩ := List.mem_filterMap.mp hg
    have hfid := hmaps.src.id_eq hget
    have hgid := hmaps.tgt.id_eq hget'
    rw [hfid, decide_eq_true_eq] at hfkey
    rw [hgid, decide_eq_true_eq] at hgkey
    refine hnone (hfkey ▸ root_autoKept hb hs ht hconflicts
      (Record.has_eq_true.mpr ⟨f, hget⟩) (Record.has_eq_true.mpr ⟨g, hget'⟩)
      (hfkey.trans hgkey.symm))
  have hsrc' : framesAt (frameMaps base target source).src
      (prepareMerge base target source).onlyInSource =
        framesAt (frameMaps base source target).tgt
          (prepareMerge base source target).onlyInTarget := by
    rw [onlyInSource_swap base target source]
    rfl
  have htgt' : framesAt (frameMaps base target source).tgt
      (prepareMerge base target source).onlyInTarget =
        framesAt (frameMaps base source target).src
          (prepareMerge base source target).onlyInSource := by
    rw [← onlyInSource_swap base source target]
    rfl
  have hswap : ∀ path, path ∈ (prepareMerge base target source).autoKept →
      path ∈ (prepareMerge base source target).autoKept := by
    intro path hpath
    rw [mem_autoKept] at hpath ⊢
    exact (classOf_swap_autoKept hmaps).mp hpath
  have hfirst := hauto base source target hb hs ht fun _ h => h
  have hsecond := hauto base target source hb ht hs hswap
  unfold keptFrames
  rw [hsrc', htgt']
  unfold group at hfirst hsecond hsides ⊢
  simp only [List.filter_append, hfirst, hsecond, List.nil_append]
  rcases hsides with h | h <;> simp only [h, List.nil_append, List.append_nil]

end

/-! ## Exchanging the sides of a merge without conflicts -/

/-- Two contents have the same nodes up to order, and relations of the same keys. -/
structure SameContent (content content' : SemanticContent) : Prop where
  /-- The nodes read alike up to order. -/
  nodes : (content.frames.map Frame.toReading).Perm (content'.frames.map Frame.toReading)
  /-- The relations have the same keys. -/
  relations : ∀ key, key ∈ content.relations.map relKey ↔ key ∈ content'.relations.map relKey

/-- The nodes of a group read as the nodes of the list that are in it. -/
theorem map_toReading_group (nodes : List Frame) (key : JsString) :
    (group nodes key).map Frame.toReading =
      (nodes.map Frame.toReading).filter fun r => decide (rootKey r.id = key) := by
  rw [List.filter_map]
  rfl

/-- The node at the root of a group makes it a group with one root. -/
theorem oneRoot_of_root {nodes : List Frame} (hnodup : (nodes.map FlatNode.id).Nodup)
    {key : JsString} (hkey : rootKey key = key) (hroot : ∃ f ∈ nodes, f.id = key) :
    OneRoot (group nodes key) := by
  obtain ⟨f, hf, rfl⟩ := hroot
  have hone : depth f.id = 1 := hkey ▸ depth_rootKey f.id
  have hanchored : Anchored nodes f.id := fun a ha => absurd ha (not_above_of_depth_one hone)
  have hgroup := oneRoot_of_anchored hnodup hf hanchored
  rwa [hkey] at hgroup

/-- A name that is not its own root is the root of no node. -/
theorem group_eq_nil_of_rootKey_ne {key : JsString} (hkey : rootKey key ≠ key)
    (nodes : List Frame) : group nodes key = [] := by
  refine List.filter_eq_nil_iff.mpr fun f _ h => hkey ?_
  rw [← of_decide_eq_true h, rootKey_rootKey]

/-- Without conflicts both merges result in nodes that read alike. -/
theorem mergedNodes_swap (hb : base.Ordinary) (hs : source.Ordinary) (ht : target.Ordinary)
    (hconflicts : (prepareMerge base source target).conflicts = []) :
    ((flattenTrees (unflattenToTrees (keptFrames base source target))).map Frame.toReading).Perm
      ((flattenTrees (unflattenToTrees (keptFrames base target source))).map
        Frame.toReading) := by
  have hmaps := (ordinary_frameMaps hb hs ht).wellFormed
  have hmaps' := (ordinary_frameMaps hb ht hs).wellFormed
  have hperm := keptFrames_swap hb hs ht
  have hids : ∀ id, id ∈ (keptFrames base source target).map FlatNode.id ↔
      id ∈ (keptFrames base target source).map FlatNode.id := by
    have hmap := hperm.map NodeReading.id
    rw [List.map_map, List.map_map] at hmap
    exact fun id => hmap.mem_iff
  refine unflattenToTrees_perm (fun key => ?_) hids
  by_cases hkey : rootKey key = key
  · by_cases hroot : ∃ f ∈ keptFrames base source target, f.id = key
    · have hroot' : ∃ f ∈ keptFrames base target source, f.id = key := by
        obtain ⟨f, hf, hid⟩ := hroot
        exact List.mem_map.mp ((hids key).mp (List.mem_map.mpr ⟨f, hf, hid⟩))
      refine rebuilt_reading_perm
        (fun f hf => isPlaced_keptFrames hmaps (List.mem_filter.mp hf).1)
        (fun f hf => isPlaced_keptFrames hmaps' (List.mem_filter.mp hf).1)
        (oneRoot_of_root (nodup_keptFrames hmaps) hkey hroot)
        (oneRoot_of_root (nodup_keptFrames hmaps') hkey hroot') ?_
      have hfilter := hperm.filter fun r => decide (rootKey r.id = key)
      rwa [← map_toReading_group, ← map_toReading_group] at hfilter
    · rw [group_keptFrames_of_no_root hb hs ht hconflicts fun f hf hid => hroot ⟨f, hf, hid⟩]
  · rw [group_eq_nil_of_rootKey_ne hkey, group_eq_nil_of_rootKey_ne hkey]

/-- The keys of the relations of a merge that keeps everything: both sides have them, or
one side added them. -/
theorem mem_relKey_mergedRelations {decisions : MergeDecision}
    (hkeeps : decisions.KeepsAll (prepareMerge base source target)) (key : JsString) :
    key ∈ (mergedRelations (prepareMerge base source target) decisions).map relKey ↔
      (key ∈ source.relations.map relKey ∧ key ∈ target.relations.map relKey) ∨
      (key ∉ base.relations.map relKey ∧
        (key ∈ source.relations.map relKey ∨ key ∈ target.relations.map relKey)) := by
  have hfilter : ∀ (rs : List Relation) (p : JsString → Bool),
      key ∈ (rs.filter fun r => p (relKey r)).map relKey ↔
        key ∈ rs.map relKey ∧ p key = true := by
    intro rs p
    simp only [List.mem_map, List.mem_filter]
    constructor
    · rintro ⟨r, ⟨hr, hp⟩, rfl⟩
      exact ⟨⟨r, hr, rfl⟩, hp⟩
    · rintro ⟨⟨r, hr, rfl⟩, hp⟩
      exact ⟨r, ⟨hr, hp⟩, rfl⟩
  rw [mergedRelations, hkeeps.sourceRelations, hkeeps.targetRelations, if_pos rfl, if_pos rfl,
    List.map_append, List.map_append, List.mem_append, List.mem_append]
  simp only [prepareMerge]
  rw [hfilter source.relations fun k => (target.relations.map relKey).contains k,
    hfilter source.relations fun k => !(target.relations.map relKey).contains k &&
      !(base.relations.map relKey).contains k,
    hfilter target.relations fun k => !(source.relations.map relKey).contains k &&
      !(base.relations.map relKey).contains k]
  simp only [List.contains_iff_mem, Bool.and_eq_true, Bool.not_eq_true', ← Bool.not_eq_true]
  by_cases hsource : key ∈ source.relations.map relKey <;>
    by_cases htarget : key ∈ target.relations.map relKey <;>
    by_cases hbase : key ∈ base.relations.map relKey <;> simp [hsource, htarget, hbase]

/-! ## The nodes kept by themselves in a merge without conflicts -/

/-- Without conflicts the chosen nodes are among the kept ones, in their order. -/
theorem chosenFrames_sublist (decisions : MergeDecision)
    (hconflicts : (prepareMerge base source target).conflicts = []) :
    ((frameMaps base source target).chosenFrames (prepareMerge base source target)
      decisions).Sublist (keptFrames base source target) := by
  have hsorted : conflictsByDepth (prepareMerge base source target).conflicts = [] := by
    rw [hconflicts]
    exact (sortBy_perm _ []).eq_nil
  rw [FrameMaps.chosenFrames, hsorted, List.flatMap_nil, List.append_nil]
  exact ((List.Sublist.refl _).append (List.filter_sublist.filterMap _)).append
    (List.filter_sublist.filterMap _)

/-- Without conflicts every node kept by itself is a node of the merge, whatever is
selected besides. -/
theorem mem_mergedNodes_of_autoKept (hb : base.Ordinary) (hs : source.Ordinary)
    (ht : target.Ordinary) {decisions : MergeDecision}
    (hconflicts : (prepareMerge base source target).conflicts = []) {path : JsString}
    (hpath : path ∈ (prepareMerge base source target).autoKept) :
    ∃ f ∈ flattenTrees (unflattenToTrees ((frameMaps base source target).chosenFrames
      (prepareMerge base source target) decisions)),
      f.id = path ∧ FollowsAt (frameMaps base source target) path f := by
  have hmaps := ordinary_frameMaps hb hs ht
  have hsublist := chosenFrames_sublist decisions hconflicts
  have hpicked : ∀ p ∈ (prepareMerge base source target).autoKept,
      ∃ f ∈ (frameMaps base source target).chosenFrames (prepareMerge base source target) decisions,
        f.id = p ∧ FollowsAt (frameMaps base source target) p f := by
    intro p hp
    obtain ⟨-, f, hf, hid, -, hfollows⟩ := pickAt_follows hmaps (mem_autoKept.mp hp)
    refine ⟨f, ?_, hid, hfollows⟩
    unfold FrameMaps.chosenFrames
    simp only [List.append_assoc]
    exact List.mem_append_left _ (List.mem_filterMap.mpr ⟨p, hp, hf⟩)
  obtain ⟨f, hf, hid, hfollows⟩ := hpicked path hpath
  have hnodup := (nodup_keptFrames hmaps.wellFormed).sublist (hsublist.map FlatNode.id)
  have hplaced : ∀ g ∈ (frameMaps base source target).chosenFrames
      (prepareMerge base source target) decisions, IsPlaced g := fun g hg =>
    isPlaced_keptFrames hmaps.wellFormed (hsublist.subset hg)
  have hanchored : Anchored ((frameMaps base source target).chosenFrames
      (prepareMerge base source target) decisions) f.id := by
    intro a ha
    rw [hid] at ha
    obtain ⟨hsrc, htgt⟩ := both_of_autoKept (mem_autoKept.mp hpath)
    rcases autoKept_or_conflict (hmaps.src.above hsrc ha) (hmaps.tgt.above htgt ha) with
      hauto | ⟨slotConflicts, hconflict⟩
    · obtain ⟨g, hg, hgid, -⟩ := hpicked a (mem_autoKept.mpr hauto)
      exact ⟨g, hg, hgid⟩
    · exact absurd hconflict (no_conflicts_iff.mp hconflicts _ _)
  refine ⟨f, ?_, hid, hfollows⟩
  exact mem_flattenTrees_unflattenToTrees (fun g hg => (hplaced g hg).id_ne) hf
    (oneRoot_of_anchored hnodup hf hanchored) (fun g hg _ => hplaced g hg) hanchored

/-! ## The symmetry of a merge -/

/-- The source and the target of a merge play the same part. -/
structure MergeSymmetry (base source target : SemanticContent) : Prop where
  /-- Both merges keep the same paths by themselves. -/
  autoKept : ∀ path, path ∈ (prepareMerge base source target).autoKept ↔
    path ∈ (prepareMerge base target source).autoKept
  /-- Both merges report the same paths in conflict. -/
  conflicts : ∀ path, path ∈ (prepareMerge base source target).conflicts.map PathConflict.path ↔
    path ∈ (prepareMerge base target source).conflicts.map PathConflict.path
  /-- The paths only in the source are those only in the other merge's target. -/
  onlyInSource : (prepareMerge base source target).onlyInSource =
    (prepareMerge base target source).onlyInTarget
  /-- The paths only in the target are those only in the other merge's source. -/
  onlyInTarget : (prepareMerge base source target).onlyInTarget =
    (prepareMerge base target source).onlyInSource
  /-- Without conflicts, keeping everything gives the same content. -/
  content : (prepareMerge base source target).conflicts = [] → ∀ decisions decisions',
    MergeDecision.KeepsAll decisions (prepareMerge base source target) →
    MergeDecision.KeepsAll decisions' (prepareMerge base target source) →
    ∃ merged merged',
      executeMerge base source target (prepareMerge base source target) decisions = .ok merged ∧
      executeMerge base target source (prepareMerge base target source) decisions' = .ok merged' ∧
      SameContent merged merged'
  /-- The slots of a node kept by itself follow the side that changed them. -/
  slots : ∀ path ∈ (prepareMerge base source target).autoKept,
    SettledAt (frameMaps base source target) path ∧
      ∃ f, (frameMaps base source target).pickAt path = some f ∧ f.id = path ∧
        FollowsAt (frameMaps base source target) path f
  /-- Without conflicts these nodes are nodes of the merge. -/
  kept : (prepareMerge base source target).conflicts = [] → ∀ decisions, ∃ merged,
    executeMerge base source target (prepareMerge base source target) decisions = .ok merged ∧
    ∀ path ∈ (prepareMerge base source target).autoKept,
      ∃ f ∈ merged.frames, f.id = path ∧ FollowsAt (frameMaps base source target) path f

/-- Two topics and a relation between them, with or without the project it starts in. -/
def relatedTopics (relations : List Relation) : SemanticContent :=
  ⟨[.node (js "a") [] [], .node (js "b") [] []], relations⟩

/-- The relation of the two topics. -/
def annotatedRelation (fromProject : Option JsString) : Relation :=
  ⟨js "a", js "b", js "causes", fromProject, none⟩

end T3x.Semantic
