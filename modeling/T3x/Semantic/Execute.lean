import T3x.Semantic.Paths

/-!
# The nodes that executing a merge picks

Without edits the picked nodes are those kept by themselves, the nodes that the
resolutions choose and the selected nodes of each side, one after another.
-/

namespace T3x.Semantic

open Js ThreeWay

variable {maps : FrameMaps} {decisions : MergeDecision}

/-- The nodes that the resolution of a conflict chooses among the sides. -/
def FrameMaps.resolvedFrames (maps : FrameMaps) (decisions : MergeDecision) (path : JsString) :
    List Frame :=
  match decisions.resolution path with
  | some .source => (Record.get maps.src path).toList
  | some .target => (Record.get maps.tgt path).toList
  | some .both => (Record.get maps.src path).toList ++ (Record.get maps.tgt path).toList
  | some (.edit _) => []
  | none => []

/-- The selected nodes of one side. -/
def selectedFrames (side : Record Frame) (paths selected : List JsString) : List Frame :=
  (paths.filter fun path => decide (path ∈ selected)).filterMap (Record.get side)

/-- A node that no edit supplied is added to the picked nodes. -/
theorem pushResolved_of_not_edited {picked : Picked} (h : picked.edited = [])
    (frame : Option Frame) :
    picked.pushResolved frame = ⟨picked.frames ++ frame.toList, []⟩ := by
  cases frame with
  | none =>
    obtain ⟨frames, edited⟩ := picked
    simp only at h
    simp [Picked.pushResolved, h]
  | some f => simp [Picked.pushResolved, Picked.pushResolvedFrame, h]

/-- Without edited paths the selected nodes of a side are added to the picked ones. -/
theorem keep_of_not_edited {picked : Picked} (h : picked.edited = []) (side : Record Frame)
    (paths selected : List JsString) :
    picked.keep side paths selected =
      ⟨picked.frames ++ selectedFrames side paths selected, []⟩ := by
  unfold Picked.keep selectedFrames
  induction paths generalizing picked with
  | nil =>
    obtain ⟨frames, edited⟩ := picked
    simp only at h
    simp [h]
  | cons path paths ih =>
    rw [List.foldl_cons]
    by_cases hpath : path ∈ selected
    · rw [if_pos hpath, pushResolved_of_not_edited h, ih rfl, List.filter_cons_of_pos (by simpa)]
      cases hget : Record.get side path <;> simp [hget]
    · rw [if_neg hpath, ih h, List.filter_cons_of_neg (by simpa)]

/-- No conflict of a list is resolved by an edit. -/
def MergeDecision.EditFree (decisions : MergeDecision) (conflicts : List PathConflict) : Prop :=
  ∀ c ∈ conflicts, ∀ tree, decisions.resolution c.path ≠ some (.edit tree)

/-- Resolving conflicts without edits adds the chosen nodes. -/
theorem resolveConflicts_of_editFree {conflicts : List PathConflict} {picked : Picked}
    (hfree : decisions.EditFree conflicts) (h : picked.edited = []) :
    maps.resolveConflicts decisions conflicts picked =
      .ok ⟨picked.frames ++ conflicts.flatMap fun c => maps.resolvedFrames decisions c.path, []⟩ := by
  induction conflicts generalizing picked with
  | nil =>
    obtain ⟨frames, edited⟩ := picked
    simp only at h
    simp [FrameMaps.resolveConflicts, h]
  | cons c conflicts ih =>
    have hstep : maps.resolveConflict decisions picked c =
        .ok ⟨picked.frames ++ maps.resolvedFrames decisions c.path, []⟩ := by
      unfold FrameMaps.resolveConflict FrameMaps.resolvedFrames
      cases hresolution : decisions.resolution c.path with
      | none =>
        obtain ⟨frames, edited⟩ := picked
        simp only at h
        simp [h]
      | some resolution =>
        cases resolution with
        | source => exact congrArg Except.ok (pushResolved_of_not_edited h _)
        | target => exact congrArg Except.ok (pushResolved_of_not_edited h _)
        | both =>
          dsimp only
          rw [pushResolved_of_not_edited h, pushResolved_of_not_edited rfl, List.append_assoc]
        | edit tree => exact absurd hresolution (hfree c List.mem_cons_self tree)
    rw [FrameMaps.resolveConflicts, hstep]
    dsimp only
    rw [ih (fun c' hc' => hfree c' (List.mem_cons_of_mem _ hc')) rfl, List.flatMap_cons,
      List.append_assoc]

/-- The nodes that the decisions choose, path by path. -/
def FrameMaps.chosenFrames (maps : FrameMaps) (prepared : MergeResult)
    (decisions : MergeDecision) : List Frame :=
  maps.autoKeptFrames prepared.autoKept ++
    ((conflictsByDepth prepared.conflicts).flatMap fun c => maps.resolvedFrames decisions c.path) ++
    selectedFrames maps.src prepared.onlyInSource decisions.keepFromSource ++
    selectedFrames maps.tgt prepared.onlyInTarget decisions.keepFromTarget

/-- Sorting the conflicts keeps them. -/
theorem mem_conflictsByDepth {conflicts : List PathConflict} {c : PathConflict} :
    c ∈ conflictsByDepth conflicts ↔ c ∈ conflicts :=
  (sortBy_perm _ _).mem_iff

/-- Without edits the picked nodes are the chosen ones. -/
theorem pick_of_editFree {prepared : MergeResult} (hfree : decisions.EditFree prepared.conflicts) :
    maps.pick prepared decisions = .ok ⟨maps.chosenFrames prepared decisions, []⟩ := by
  have hsorted : decisions.EditFree (conflictsByDepth prepared.conflicts) := fun c hc =>
    hfree c (mem_conflictsByDepth.mp hc)
  unfold FrameMaps.pick
  rw [resolveConflicts_of_editFree hsorted rfl]
  have hsource : ∀ frames, Picked.keep ⟨frames, []⟩ maps.src prepared.onlyInSource
      decisions.keepFromSource =
        ⟨frames ++ selectedFrames maps.src prepared.onlyInSource decisions.keepFromSource, []⟩ :=
    fun _ => keep_of_not_edited rfl _ _ _
  have htarget : ∀ frames, Picked.keep ⟨frames, []⟩ maps.tgt prepared.onlyInTarget
      decisions.keepFromTarget =
        ⟨frames ++ selectedFrames maps.tgt prepared.onlyInTarget decisions.keepFromTarget, []⟩ :=
    fun _ => keep_of_not_edited rfl _ _ _
  dsimp only
  rw [hsource, htarget]
  rfl

/-- The relations that a merge results in. -/
def mergedRelations (prepared : MergeResult) (decisions : MergeDecision) : List Relation :=
  prepared.relationsInBoth ++
    (if decisions.keepRelationsFromSource then prepared.relationsOnlyInSource else []) ++
    if decisions.keepRelationsFromTarget then prepared.relationsOnlyInTarget else []

/-- Without edits a merge puts the chosen nodes together. -/
theorem executeMerge_of_editFree {base source target : SemanticContent} {prepared : MergeResult}
    (hfree : decisions.EditFree prepared.conflicts) :
    executeMerge base source target prepared decisions =
      .ok ⟨unflattenToTrees ((frameMaps base source target).chosenFrames prepared decisions),
        mergedRelations prepared decisions⟩ := by
  unfold executeMerge
  rw [pick_of_editFree hfree]
  rfl

/-- The decisions keep every path and every relation that only one side has. -/
structure MergeDecision.KeepsAll (decisions : MergeDecision) (prepared : MergeResult) : Prop where
  /-- Every path only in the source is kept. -/
  source : ∀ path ∈ prepared.onlyInSource, path ∈ decisions.keepFromSource
  /-- Every path only in the target is kept. -/
  target : ∀ path ∈ prepared.onlyInTarget, path ∈ decisions.keepFromTarget
  /-- The relations only in the source are kept. -/
  sourceRelations : decisions.keepRelationsFromSource = true
  /-- The relations only in the target are kept. -/
  targetRelations : decisions.keepRelationsFromTarget = true

/-- The nodes of one side under given paths. -/
def framesAt (side : Record Frame) (paths : List JsString) : List Frame :=
  paths.filterMap (Record.get side)

/-- Selecting all paths keeps all nodes. -/
theorem selectedFrames_of_all {side : Record Frame} {paths selected : List JsString}
    (h : ∀ path ∈ paths, path ∈ selected) :
    selectedFrames side paths selected = framesAt side paths := by
  rw [selectedFrames, List.filter_eq_self.mpr fun path hpath => decide_eq_true (h path hpath)]
  rfl

/-- Without conflicts, keeping everything picks the nodes kept by themselves and all
nodes of each side alone. -/
theorem chosenFrames_of_keepsAll {prepared : MergeResult} (hconflicts : prepared.conflicts = [])
    (hkeeps : decisions.KeepsAll prepared) :
    maps.chosenFrames prepared decisions = maps.autoKeptFrames prepared.autoKept ++
      framesAt maps.src prepared.onlyInSource ++ framesAt maps.tgt prepared.onlyInTarget := by
  have hsorted : conflictsByDepth prepared.conflicts = [] := by
    rw [hconflicts]
    exact (sortBy_perm _ []).eq_nil
  rw [FrameMaps.chosenFrames, hsorted, selectedFrames_of_all hkeeps.source,
    selectedFrames_of_all hkeeps.target, List.flatMap_nil, List.append_nil]

/-- Without conflicts no edit is needed. -/
theorem editFree_of_no_conflicts {prepared : MergeResult} (h : prepared.conflicts = []) :
    decisions.EditFree prepared.conflicts := by
  rw [h]
  exact fun c hc => absurd hc List.not_mem_nil

/-! ## The nodes picked from well-formed contents -/

/-- Nodes of one path in two frame maps have one type. -/
theorem IsFrameMap.type_eq {map map' : Record Frame} (h : IsFrameMap map) (h' : IsFrameMap map')
    {path : JsString} {f g : Frame} (hf : Record.get map path = some f)
    (hg : Record.get map' path = some g) : f.type = g.type :=
  (h.placed hf).type_eq (h'.placed hg) ((h.id_eq hf).trans (h'.id_eq hg).symm)

/-- The node picked for a path that is kept by itself stands there. -/
theorem pickAt_placed (hmaps : maps.WellFormed) {path : JsString}
    (h : maps.classOf path = .autoKept) :
    ∃ f, maps.pickAt path = some f ∧ f.id = path ∧ IsPlaced f := by
  obtain ⟨hs, ht⟩ := both_of_autoKept h
  obtain ⟨s, hs⟩ := Record.has_eq_true.mp hs
  obtain ⟨t, ht⟩ := Record.has_eq_true.mp ht
  have hsid := hmaps.src.id_eq hs
  have hsplaced := hmaps.src.placed hs
  unfold FrameMaps.pickAt
  rw [hs, ht]
  cases hb : Record.get maps.base path with
  | none => exact ⟨s, rfl, hsid, hsplaced⟩
  | some b =>
    have htype := hmaps.tgt.type_eq hmaps.base ht hb
    rw [pickAutoKept]
    split_ifs
    · exact ⟨s, rfl, hsid, hsplaced⟩
    · exact ⟨s, rfl, hsid, hsplaced⟩
    · exact ⟨t, rfl, hmaps.tgt.id_eq ht, hmaps.tgt.placed ht⟩
    · refine ⟨mergeNonConflicting b s t, rfl, hsid, hsplaced.congr rfl ?_⟩
      rw [mergeNonConflicting, if_neg fun h => h.1 htype]

/-- The nodes picked for the paths kept by themselves have these paths. -/
theorem map_id_autoKeptFrames (hmaps : maps.WellFormed) {paths : List JsString}
    (hpaths : ∀ path ∈ paths, maps.classOf path = .autoKept) :
    (maps.autoKeptFrames paths).map FlatNode.id = paths := by
  induction paths with
  | nil => rfl
  | cons path paths ih =>
    obtain ⟨f, hf, hid, -⟩ := pickAt_placed hmaps (hpaths path List.mem_cons_self)
    unfold FrameMaps.autoKeptFrames at ih ⊢
    rw [List.filterMap_cons_some hf, List.map_cons, hid,
      ih fun p hp => hpaths p (List.mem_cons_of_mem _ hp)]

/-- The nodes of one side under paths that it has have these paths. -/
theorem map_id_framesAt {side : Record Frame} (hside : IsFrameMap side) {paths : List JsString}
    (hpaths : ∀ path ∈ paths, Record.has side path = true) :
    (framesAt side paths).map FlatNode.id = paths := by
  induction paths with
  | nil => rfl
  | cons path paths ih =>
    obtain ⟨f, hf⟩ := Record.has_eq_true.mp (hpaths path List.mem_cons_self)
    unfold framesAt at ih ⊢
    rw [List.filterMap_cons_some hf, List.map_cons, hside.id_eq hf,
      ih fun p hp => hpaths p (List.mem_cons_of_mem _ hp)]

/-- The nodes that are picked when nothing is in conflict and everything is kept. -/
def keptFrames (base source target : SemanticContent) : List Frame :=
  (frameMaps base source target).autoKeptFrames (prepareMerge base source target).autoKept ++
    framesAt (frameMaps base source target).src (prepareMerge base source target).onlyInSource ++
    framesAt (frameMaps base source target).tgt (prepareMerge base source target).onlyInTarget

section

variable {base source target : SemanticContent}
  (hmaps : (frameMaps base source target).WellFormed)

include hmaps

/-- The paths of the kept nodes. -/
theorem map_id_keptFrames : (keptFrames base source target).map FlatNode.id =
    (prepareMerge base source target).autoKept ++
      (prepareMerge base source target).onlyInSource ++
      (prepareMerge base source target).onlyInTarget := by
  unfold keptFrames
  rw [List.map_append, List.map_append, map_id_autoKeptFrames hmaps fun _ => mem_autoKept.mp,
    map_id_framesAt hmaps.src fun path hpath =>
      (classOf_eq_onlyInSource_iff.mp (mem_onlyInSource.mp hpath)).2.1,
    map_id_framesAt hmaps.tgt fun path hpath =>
      (classOf_eq_onlyInTarget_iff.mp (mem_onlyInTarget.mp hpath)).2.2]

/-- The kept nodes have distinct paths. -/
theorem nodup_keptFrames : ((keptFrames base source target).map FlatNode.id).Nodup := by
  have hall : (frameMaps base source target).allIds.Nodup := nodup_distinct _
  rw [map_id_keptFrames hmaps, List.nodup_append, List.nodup_append]
  refine ⟨⟨hall.filter _, hall.filter _, ?_⟩, hall.filter _, ?_⟩
  · rintro path hauto _ honly rfl
    have hclass := mem_autoKept.mp hauto
    rw [mem_onlyInSource.mp honly] at hclass
    simp at hclass
  · rintro path hmem _ honly rfl
    have hclass := mem_onlyInTarget.mp honly
    rcases List.mem_append.mp hmem with hauto | hsource
    · rw [mem_autoKept.mp hauto] at hclass
      simp at hclass
    · rw [mem_onlyInSource.mp hsource] at hclass
      simp at hclass

/-- The kept nodes are placed. -/
theorem isPlaced_keptFrames {f : Frame} (hf : f ∈ keptFrames base source target) :
    IsPlaced f := by
  rcases List.mem_append.mp hf with hf | hf
  · rcases List.mem_append.mp hf with hf | hf
    · obtain ⟨path, hpath, hpick⟩ := List.mem_filterMap.mp hf
      obtain ⟨g, hg, -, hplaced⟩ := pickAt_placed hmaps (mem_autoKept.mp hpath)
      obtain rfl := Option.some.inj (hpick.symm.trans hg)
      exact hplaced
    · obtain ⟨path, -, hget⟩ := List.mem_filterMap.mp hf
      exact hmaps.src.placed hget
  · obtain ⟨path, -, hget⟩ := List.mem_filterMap.mp hf
    exact hmaps.tgt.placed hget

end

end T3x.Semantic
