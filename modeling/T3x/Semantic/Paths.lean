import T3x.Semantic.Frames

/-!
# The paths of a merge

The maps of a merge hold the nodes of well-formed contents under their paths.
This file reads them, tells which paths a prepared merge lists, and which nodes
executing it picks.
-/

namespace T3x.Semantic

open Js ThreeWay

/-! ## Maps of nodes -/

/-- Adding nodes of new and distinct paths to a map appends them. -/
theorem foldl_mapSet_frames {frames : List Frame} {map : Record Frame}
    (hnodup : (frames.map FlatNode.id).Nodup)
    (hnew : ∀ f ∈ frames, Record.has map f.id = false) :
    frames.foldl (fun map f => Record.mapSet map f.id f) map =
      map ++ frames.map fun f => (f.id, f) := by
  induction frames generalizing map with
  | nil => simp
  | cons f frames ih =>
    obtain ⟨hnot, hrest⟩ := List.nodup_cons.mp hnodup
    have hset : Record.mapSet map f.id f = map ++ [(f.id, f)] := by
      rw [Record.mapSet, hnew f List.mem_cons_self, if_neg Bool.false_ne_true]
    rw [List.foldl_cons, hset, ih hrest, List.map_cons, List.append_assoc, List.singleton_append]
    intro g hg
    have hne : f.id ≠ g.id := fun heq => hnot (List.mem_map.mpr ⟨g, hg, heq.symm⟩)
    rw [Record.has_eq_false, Record.get_append,
      Record.has_eq_false.mp (hnew g (List.mem_cons_of_mem _ hg))]
    simp [Record.get, hne]

/-- The map of nodes with distinct paths lists them under their paths. -/
theorem frameMap_eq_map {frames : List Frame} (hnodup : (frames.map FlatNode.id).Nodup) :
    frameMap frames = frames.map fun f => (f.id, f) :=
  foldl_mapSet_frames hnodup fun _ _ => rfl

/-- The map of nodes with distinct paths finds them by their paths. -/
theorem get_frameMap {frames : List Frame} (hnodup : (frames.map FlatNode.id).Nodup)
    {id : JsString} {f : Frame} :
    Record.get (frameMap frames) id = some f ↔ f ∈ frames ∧ f.id = id := by
  rw [frameMap_eq_map hnodup]
  have hkeys : ((frames.map fun f => (f.id, f)).map Prod.fst).Nodup := by
    rw [List.map_map]
    exact hnodup
  constructor
  · intro h
    obtain ⟨g, hg, heq⟩ := List.mem_map.mp (Record.mem_of_get h)
    obtain ⟨rfl, rfl⟩ := Prod.mk.inj heq
    exact ⟨hg, rfl⟩
  · rintro ⟨hf, rfl⟩
    exact Record.get_eq_some_of_mem hkeys (List.mem_map.mpr ⟨f, hf, rfl⟩)

/-- The names of the map of nodes with distinct paths are the paths in their order. -/
theorem keys_frameMap {frames : List Frame} (hnodup : (frames.map FlatNode.id).Nodup) :
    Record.keys (frameMap frames) = frames.map FlatNode.id := by
  rw [frameMap_eq_map hnodup, Record.keys, Record.entries_of_nodup, List.map_map]
  · rfl
  · rw [List.map_map]
    exact hnodup

/-! ## The maps of well-formed contents -/

variable {base source target : SemanticContent}

/-- The trees of a content are well formed. -/
abbrev SemanticContent.WellFormed (content : SemanticContent) : Prop :=
  WellFormedTrees content.trees

/-- The nodes of a content. -/
def SemanticContent.frames (content : SemanticContent) : List Frame := flattenTrees content.trees

/-- The nodes of a well-formed content are placed, distinct and have their ancestors. -/
theorem SemanticContent.WellFormed.flattened {content : SemanticContent}
    (h : content.WellFormed) : IsFlattened content.frames :=
  isFlattened_flattenTrees h

/-- A map that holds placed nodes under their paths, with all their ancestors. -/
structure IsFrameMap (map : Record Frame) : Prop where
  /-- A node stands under its path. -/
  id_eq : ∀ {id f}, Record.get map id = some f → f.id = id
  /-- Every node is placed. -/
  placed : ∀ {id f}, Record.get map id = some f → IsPlaced f
  /-- Every path above the path of a node has a node. -/
  above : ∀ {id a}, Record.has map id = true → Above a id → Record.has map a = true

/-- The map of a well-formed content holds its nodes. -/
theorem isFrameMap_frameMap {content : SemanticContent} (h : content.WellFormed) :
    IsFrameMap (frameMap content.frames) := by
  have hflat := SemanticContent.WellFormed.flattened h
  refine ⟨fun hget => ((get_frameMap hflat.nodup).mp hget).2,
    fun hget => hflat.placed _ ((get_frameMap hflat.nodup).mp hget).1, fun hhas habove => ?_⟩
  obtain ⟨f, hf⟩ := Record.has_eq_true.mp hhas
  obtain ⟨hmem, rfl⟩ := (get_frameMap hflat.nodup).mp hf
  obtain ⟨g, hg, hid⟩ := hflat.anchored f hmem _ habove
  exact Record.has_eq_true.mpr ⟨g, (get_frameMap hflat.nodup).mpr ⟨hg, hid⟩⟩

/-- The root of a path has a node. -/
theorem IsFrameMap.has_root {map : Record Frame} (h : IsFrameMap map) {path : JsString}
    (hpath : Record.has map path = true) : Record.has map (rootKey path) = true := by
  rcases rootKey_eq_or_above path with ⟨-, hroot⟩ | ⟨-, habove⟩
  · rwa [hroot]
  · exact h.above hpath habove

/-- Placed nodes of one path have one type. -/
theorem IsPlaced.type_eq {f g : Frame} (hf : IsPlaced f) (hg : IsPlaced g) (h : f.id = g.id) :
    f.type = g.type := by
  have hsegments := hf.segments
  rw [h, hg.segments] at hsegments
  exact (List.cons.inj (List.append_cancel_left hsegments)).1.symm

/-- A node is placed by its path and its type alone. -/
theorem IsPlaced.congr {f g : Frame} (hf : IsPlaced f) (hid : f.id = g.id)
    (htype : f.type = g.type) : IsPlaced g :=
  ⟨htype ▸ hf.type_ne, htype ▸ hf.slash, by rw [← hid, ← htype, hf.path]⟩

/-- The maps of three well-formed contents. -/
structure FrameMaps.WellFormed (maps : FrameMaps) : Prop where
  /-- The base is well formed. -/
  base : IsFrameMap maps.base
  /-- The source is well formed. -/
  src : IsFrameMap maps.src
  /-- The target is well formed. -/
  tgt : IsFrameMap maps.tgt

/-- The maps with the sides exchanged. -/
def FrameMaps.swap (maps : FrameMaps) : FrameMaps := ⟨maps.base, maps.tgt, maps.src⟩

/-- Exchanging the sides keeps maps well formed. -/
theorem FrameMaps.WellFormed.swap {maps : FrameMaps} (h : maps.WellFormed) :
    maps.swap.WellFormed :=
  ⟨h.base, h.tgt, h.src⟩

/-- The maps of well-formed contents are well formed. -/
theorem wellFormed_frameMaps (hb : base.WellFormed) (hs : source.WellFormed)
    (ht : target.WellFormed) : (frameMaps base source target).WellFormed :=
  ⟨isFrameMap_frameMap hb, isFrameMap_frameMap hs, isFrameMap_frameMap ht⟩

/-! ## The paths that a prepared merge lists -/

variable {maps : FrameMaps}

/-- The paths of a merge are those of a node. -/
theorem mem_allIds {id : JsString} : id ∈ maps.allIds ↔
    Record.has maps.base id = true ∨ Record.has maps.src id = true ∨
      Record.has maps.tgt id = true := by
  simp only [FrameMaps.allIds, mem_distinct, List.mem_append, Record.mem_keys, or_assoc]

/-- A path that some node has is one of the merge. -/
theorem mem_allIds_of_classOf {id : JsString} (h : maps.classOf id ≠ .dropped) :
    id ∈ maps.allIds := by
  rw [mem_allIds]
  by_contra hnone
  simp only [not_or, Bool.not_eq_true, Record.has_eq_false] at hnone
  refine h ?_
  rw [FrameMaps.classOf, hnone.1, hnone.2.1, hnone.2.2]
  rfl

/-- The paths of a class that is not dropped. -/
theorem mem_filter_class {p : PathClass → Bool} (hp : p .dropped = false) {id : JsString} :
    id ∈ maps.allIds.filter (fun id => p (maps.classOf id)) ↔ p (maps.classOf id) = true := by
  rw [List.mem_filter, and_iff_right_iff_imp]
  intro h
  refine mem_allIds_of_classOf fun hdropped => ?_
  rw [hdropped, hp] at h
  exact absurd h Bool.false_ne_true

/-- The paths kept by themselves. -/
theorem mem_autoKept {id : JsString} :
    id ∈ (prepareMerge base source target).autoKept ↔
      (frameMaps base source target).classOf id = .autoKept := by
  refine (mem_filter_class rfl).trans ?_
  cases (frameMaps base source target).classOf id <;> simp [PathClass.isAutoKept]

/-- The paths kept by themselves are distinct. -/
theorem nodup_autoKept : (prepareMerge base source target).autoKept.Nodup :=
  (nodup_distinct _).filter _

/-- The paths only in the source. -/
theorem mem_onlyInSource {id : JsString} :
    id ∈ (prepareMerge base source target).onlyInSource ↔
      (frameMaps base source target).classOf id = .onlyInSource := by
  refine (mem_filter_class rfl).trans ?_
  cases (frameMaps base source target).classOf id <;> simp [PathClass.isOnlyInSource]

/-- The paths only in the target. -/
theorem mem_onlyInTarget {id : JsString} :
    id ∈ (prepareMerge base source target).onlyInTarget ↔
      (frameMaps base source target).classOf id = .onlyInTarget := by
  refine (mem_filter_class rfl).trans ?_
  cases (frameMaps base source target).classOf id <;> simp [PathClass.isOnlyInTarget]

/-- The paths in conflict. -/
theorem mem_conflicts {id : JsString} :
    id ∈ (prepareMerge base source target).conflicts.map PathConflict.path ↔
      ∃ slotConflicts, (frameMaps base source target).classOf id = .conflict slotConflicts := by
  unfold prepareMerge
  simp only [List.mem_map, List.mem_filterMap, Option.map_eq_some_iff]
  constructor
  · rintro ⟨c, ⟨id', -, slotConflicts, hclass, rfl⟩, rfl⟩
    refine ⟨slotConflicts, ?_⟩
    cases h : (frameMaps base source target).classOf id' <;> simp_all [PathClass.conflict?]
  · rintro ⟨slotConflicts, h⟩
    exact ⟨⟨id, slotConflicts⟩, ⟨id, mem_allIds_of_classOf (by simp [h]), slotConflicts,
      by rw [h]; rfl, rfl⟩, rfl⟩

/-- A path is only in the source exactly when the source alone has it. -/
theorem classOf_eq_onlyInSource_iff {id : JsString} : maps.classOf id = .onlyInSource ↔
    Record.has maps.base id = false ∧ Record.has maps.src id = true ∧
      Record.has maps.tgt id = false := by
  unfold FrameMaps.classOf Record.has
  cases Record.get maps.base id <;> cases Record.get maps.src id <;>
    cases Record.get maps.tgt id <;> simp only [classify] <;> (try split_ifs) <;> simp

/-- A path is only in the target exactly when the target alone has it. -/
theorem classOf_eq_onlyInTarget_iff {id : JsString} : maps.classOf id = .onlyInTarget ↔
    Record.has maps.base id = false ∧ Record.has maps.src id = false ∧
      Record.has maps.tgt id = true := by
  unfold FrameMaps.classOf Record.has
  cases Record.get maps.base id <;> cases Record.get maps.src id <;>
    cases Record.get maps.tgt id <;> simp only [classify] <;> (try split_ifs) <;> simp

/-- A path that is kept by itself is on both sides. -/
theorem both_of_autoKept {id : JsString} (h : maps.classOf id = .autoKept) :
    Record.has maps.src id = true ∧ Record.has maps.tgt id = true := by
  unfold FrameMaps.classOf at h
  unfold Record.has
  cases hb : Record.get maps.base id <;> cases hs : Record.get maps.src id <;>
    cases ht : Record.get maps.tgt id <;> rw [hb, hs, ht] at h <;>
    simp only [classify] at h <;> (try split_ifs at h) <;> simp at h ⊢

/-- A path on both sides is kept by itself or in conflict. -/
theorem autoKept_or_conflict {id : JsString} (hs : Record.has maps.src id = true)
    (ht : Record.has maps.tgt id = true) :
    maps.classOf id = .autoKept ∨ ∃ slotConflicts, maps.classOf id = .conflict slotConflicts := by
  obtain ⟨s, hs⟩ := Record.has_eq_true.mp hs
  obtain ⟨t, ht⟩ := Record.has_eq_true.mp ht
  unfold FrameMaps.classOf
  rw [hs, ht]
  cases Record.get maps.base id with
  | none =>
    rw [classify]
    split_ifs
    · exact .inl rfl
    · exact .inr ⟨_, rfl⟩
  | some b =>
    rw [classify]
    split_ifs
    · exact .inl rfl
    · exact .inl rfl
    · dsimp only
      split_ifs
      · exact .inl rfl
      · exact .inr ⟨_, rfl⟩

end T3x.Semantic
