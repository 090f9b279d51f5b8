import T3x.Semantic.Execute

/-!
# Exchanging the sides of a merge

The source and the target of a merge play the same part: exchanging them keeps
the paths kept by themselves and the paths in conflict and exchanges the paths
that one side alone has. Where nothing is in conflict and everything is kept,
both merges result in the same nodes, each with the slots that follow the side
which changed them.
-/

namespace T3x.Semantic

open Js ThreeWay

/-- A well-formed content whose nodes are ordinary. -/
structure SemanticContent.Ordinary (content : SemanticContent) : Prop where
  /-- The trees are well formed. -/
  wellFormed : content.WellFormed
  /-- The nodes are ordinary. -/
  frames : ∀ f ∈ content.frames, f.Ordinary

instance (content : SemanticContent) : Decidable content.Ordinary :=
  decidable_of_iff (content.WellFormed ∧
      (content.frames.all fun f => decide f.Ordinary) = true) <| by
    simp only [List.all_eq_true, decide_eq_true_eq]
    exact ⟨fun h => ⟨h.1, h.2⟩, fun h => ⟨h.wellFormed, h.frames⟩⟩

/-- A frame map whose nodes are ordinary. -/
structure IsOrdinaryMap (map : Record Frame) : Prop extends IsFrameMap map where
  /-- The nodes are ordinary. -/
  ordinary : ∀ {id f}, Record.get map id = some f → f.Ordinary

/-- The maps of three ordinary contents. -/
structure FrameMaps.Ordinary (maps : FrameMaps) : Prop where
  /-- The base is ordinary. -/
  base : IsOrdinaryMap maps.base
  /-- The source is ordinary. -/
  src : IsOrdinaryMap maps.src
  /-- The target is ordinary. -/
  tgt : IsOrdinaryMap maps.tgt

variable {base source target : SemanticContent} {maps : FrameMaps}

/-- The map of an ordinary content is ordinary. -/
theorem isOrdinaryMap_frameMap {content : SemanticContent} (h : content.Ordinary) :
    IsOrdinaryMap (frameMap content.frames) := by
  have hflat := SemanticContent.WellFormed.flattened h.wellFormed
  exact ⟨isFrameMap_frameMap h.wellFormed, fun hget =>
    h.frames _ ((get_frameMap hflat.nodup).mp hget).1⟩

/-- The maps of ordinary contents are ordinary. -/
theorem ordinary_frameMaps (hb : base.Ordinary) (hs : source.Ordinary) (ht : target.Ordinary) :
    (frameMaps base source target).Ordinary :=
  ⟨isOrdinaryMap_frameMap hb, isOrdinaryMap_frameMap hs, isOrdinaryMap_frameMap ht⟩

/-- Ordinary contents are well formed, and so are their maps. -/
theorem FrameMaps.Ordinary.wellFormed (h : maps.Ordinary) : maps.WellFormed :=
  ⟨h.base.toIsFrameMap, h.src.toIsFrameMap, h.tgt.toIsFrameMap⟩

/-- Exchanging the sides keeps maps ordinary. -/
theorem FrameMaps.Ordinary.swap (h : maps.Ordinary) : maps.swap.Ordinary :=
  ⟨h.base, h.tgt, h.src⟩

/-! ## The picked nodes -/

/-- What a slot of the node of a path reads as. -/
def slotReadingAt (map : Record Frame) (path key : JsString) : Option Doc :=
  (Record.get map path).bind fun f => f.slotReading key

/-- Every slot of a node follows the side that changed it at a path. -/
def FollowsAt (maps : FrameMaps) (path : JsString) (f : Frame) : Prop :=
  ∀ key, Follows id (slotReadingAt maps.base path key) (slotReadingAt maps.src path key)
    (slotReadingAt maps.tgt path key) (f.slotReading key)

/-- No slot at a path reads pairwise differently. -/
def SettledAt (maps : FrameMaps) (path : JsString) : Prop :=
  ∀ key, ¬ Differ id (slotReadingAt maps.base path key) (slotReadingAt maps.src path key)
    (slotReadingAt maps.tgt path key)

/-- What a slot of a present node reads as. -/
theorem slotReadingAt_of_get {map : Record Frame} {path : JsString} {f : Frame}
    (h : Record.get map path = some f) (key : JsString) :
    slotReadingAt map path key = f.slotReading key := by
  rw [slotReadingAt, h, Option.bind_some]

/-- The node picked for a path that is kept by itself stands there, and its slots
follow the side that changed them. -/
theorem pickAt_follows (hmaps : maps.Ordinary) {path : JsString}
    (h : maps.classOf path = .autoKept) :
    SettledAt maps path ∧ ∃ f, maps.pickAt path = some f ∧ f.id = path ∧ IsPlaced f ∧
      FollowsAt maps path f := by
  obtain ⟨hs, ht⟩ := both_of_autoKept h
  obtain ⟨s, hs⟩ := Record.has_eq_true.mp hs
  obtain ⟨t, ht⟩ := Record.has_eq_true.mp ht
  have hst := hmaps.src.type_eq hmaps.tgt.toIsFrameMap hs ht
  have hso := hmaps.src.ordinary hs
  have hto := hmaps.tgt.ordinary ht
  rw [FrameMaps.classOf, hs, ht] at h
  unfold SettledAt FollowsAt
  simp only [slotReadingAt_of_get hs, slotReadingAt_of_get ht]
  cases hb : Record.get maps.base path with
  | none =>
    rw [hb, classify] at h
    split_ifs at h with heq
    have hread := (framesEqual_iff hso hto hst).mp heq
    refine ⟨fun key => not_differ_of_eq (.inl (hread key)), s, ?_, hmaps.src.id_eq hs,
      hmaps.src.placed hs, fun key => ⟨fun _ => rfl, fun _ => hread key, fun _ => rfl⟩⟩
    rw [FrameMaps.pickAt, hb, hs, ht]
    rfl
  | some b =>
    have hbo := hmaps.base.ordinary hb
    have hsb := hmaps.src.type_eq hmaps.base.toIsFrameMap hs hb
    have htb := hmaps.tgt.type_eq hmaps.base.toIsFrameMap ht hb
    simp only [slotReadingAt_of_get hb]
    rw [hb] at h
    refine ⟨(classify_eq_autoKept_iff hbo hso hto hsb htb).mp h, ?_⟩
    have hid := (hmaps.src.id_eq hs).trans (hmaps.tgt.id_eq ht).symm
    obtain ⟨f, hf, hfid, hftype, hfollows⟩ := pickAutoKept_follows hbo hso hto hsb htb hid
    refine ⟨f, ?_, hfid.trans (hmaps.src.id_eq hs), ?_, hfollows⟩
    · rw [FrameMaps.pickAt, hb, hs, ht, hf]
    · exact (hmaps.src.placed hs).congr hfid.symm hftype.symm

/-! ## Exchanging the sides -/

/-- Exchanging the sides of the maps is exchanging the contents. -/
theorem frameMaps_swap (base source target : SemanticContent) :
    frameMaps base target source = (frameMaps base source target).swap := rfl

/-- A path that is kept by itself stays so when the sides are exchanged. -/
theorem classOf_swap_of_autoKept (hmaps : maps.Ordinary) {path : JsString}
    (h : maps.classOf path = .autoKept) : maps.swap.classOf path = .autoKept := by
  obtain ⟨hs, ht⟩ := both_of_autoKept h
  obtain ⟨s, hs⟩ := Record.has_eq_true.mp hs
  obtain ⟨t, ht⟩ := Record.has_eq_true.mp ht
  have hst := hmaps.src.type_eq hmaps.tgt.toIsFrameMap hs ht
  have hso := hmaps.src.ordinary hs
  have hto := hmaps.tgt.ordinary ht
  rw [FrameMaps.classOf, hs, ht] at h
  rw [FrameMaps.classOf, FrameMaps.swap, hs, ht]
  cases hb : Record.get maps.base path with
  | none =>
    rw [hb, classify] at h
    split_ifs at h with heq
    have hread := (framesEqual_iff hso hto hst).mp heq
    rw [classify, if_pos]
    exact (framesEqual_iff hto hso hst.symm).mpr fun key => (hread key).symm
  | some b =>
    have hbo := hmaps.base.ordinary hb
    have hsb := hmaps.src.type_eq hmaps.base.toIsFrameMap hs hb
    have htb := hmaps.tgt.type_eq hmaps.base.toIsFrameMap ht hb
    rw [hb] at h
    have hsettled := (classify_eq_autoKept_iff hbo hso hto hsb htb).mp h
    exact (classify_eq_autoKept_iff hbo hto hso htb hsb).mpr fun key hdiffer =>
      hsettled key hdiffer.swap

/-- Exchanging the sides keeps the paths kept by themselves. -/
theorem classOf_swap_autoKept (hmaps : maps.Ordinary) {path : JsString} :
    maps.swap.classOf path = .autoKept ↔ maps.classOf path = .autoKept :=
  ⟨classOf_swap_of_autoKept hmaps.swap, classOf_swap_of_autoKept hmaps⟩

/-- A path in conflict stays so when the sides are exchanged. -/
theorem classOf_swap_of_conflict (hmaps : maps.Ordinary) {path : JsString}
    (h : ∃ slotConflicts, maps.classOf path = .conflict slotConflicts) :
    ∃ slotConflicts, maps.swap.classOf path = .conflict slotConflicts := by
  obtain ⟨slotConflicts, h⟩ := h
  by_cases hboth : Record.has maps.src path = true ∧ Record.has maps.tgt path = true
  · have hswap : Record.has maps.swap.src path = true ∧ Record.has maps.swap.tgt path = true :=
      hboth.symm
    rcases autoKept_or_conflict hswap.1 hswap.2 with hauto | hconflict
    · rw [(classOf_swap_autoKept hmaps).mp hauto] at h
      simp at h
    · exact hconflict
  · rw [FrameMaps.classOf] at h
    unfold Record.has at hboth
    simp only [FrameMaps.classOf, FrameMaps.swap]
    cases hs : Record.get maps.src path with
    | none =>
      cases ht : Record.get maps.tgt path with
      | none => cases hb : Record.get maps.base path <;> simp [hb, hs, ht, classify] at h
      | some t =>
        cases hb : Record.get maps.base path with
        | none => simp [hb, hs, ht, classify] at h
        | some b =>
          rw [hb, hs, ht, classify] at h
          split_ifs at h with heq
          exact ⟨_, by rw [classify, if_neg heq]⟩
    | some s =>
      cases ht : Record.get maps.tgt path with
      | none =>
        cases hb : Record.get maps.base path with
        | none => simp [hb, hs, ht, classify] at h
        | some b =>
          rw [hb, hs, ht, classify] at h
          split_ifs at h with heq
          exact ⟨_, by rw [classify, if_neg heq]⟩
      | some t => simp [hs, ht] at hboth

/-- Exchanging the sides keeps the paths in conflict. -/
theorem classOf_swap_conflict (hmaps : maps.Ordinary) {path : JsString} :
    (∃ slotConflicts, maps.swap.classOf path = .conflict slotConflicts) ↔
      ∃ slotConflicts, maps.classOf path = .conflict slotConflicts :=
  ⟨classOf_swap_of_conflict hmaps.swap, classOf_swap_of_conflict hmaps⟩

/-- Which paths are only in the source. -/
theorem isOnlyInSource_iff {path : JsString} : (maps.classOf path).isOnlyInSource = true ↔
    Record.has maps.base path = false ∧ Record.has maps.src path = true ∧
      Record.has maps.tgt path = false := by
  rw [← classOf_eq_onlyInSource_iff]
  cases maps.classOf path <;> simp [PathClass.isOnlyInSource]

/-- Which paths are only in the target. -/
theorem isOnlyInTarget_iff {path : JsString} : (maps.classOf path).isOnlyInTarget = true ↔
    Record.has maps.base path = false ∧ Record.has maps.src path = false ∧
      Record.has maps.tgt path = true := by
  rw [← classOf_eq_onlyInTarget_iff]
  cases maps.classOf path <;> simp [PathClass.isOnlyInTarget]

/-- The paths only in the source stand in the order of the source. -/
theorem onlyInSource_eq : (prepareMerge base source target).onlyInSource =
    (Record.keys (frameMaps base source target).src).filter fun path =>
      ((frameMaps base source target).classOf path).isOnlyInSource := by
  have hbase : (Record.keys (frameMaps base source target).base).filter (fun path =>
      ((frameMaps base source target).classOf path).isOnlyInSource) = [] := by
    refine List.filter_eq_nil_iff.mpr fun path hpath h => ?_
    simp [Record.mem_keys, (isOnlyInSource_iff.mp h).1] at hpath
  have htgt : (Record.keys (frameMaps base source target).tgt).filter (fun path =>
      ((frameMaps base source target).classOf path).isOnlyInSource) = [] := by
    refine List.filter_eq_nil_iff.mpr fun path hpath h => ?_
    simp [Record.mem_keys, (isOnlyInSource_iff.mp h).2.2] at hpath
  refine (filter_distinct _ _).trans ?_
  rw [List.filter_append, List.filter_append, hbase, htgt, List.nil_append, List.append_nil]
  exact distinct_of_nodup ((Record.keys_nodup _).filter _)

/-- The paths only in the target stand in the order of the target. -/
theorem onlyInTarget_eq : (prepareMerge base source target).onlyInTarget =
    (Record.keys (frameMaps base source target).tgt).filter fun path =>
      ((frameMaps base source target).classOf path).isOnlyInTarget := by
  have hbase : (Record.keys (frameMaps base source target).base).filter (fun path =>
      ((frameMaps base source target).classOf path).isOnlyInTarget) = [] := by
    refine List.filter_eq_nil_iff.mpr fun path hpath h => ?_
    simp [Record.mem_keys, (isOnlyInTarget_iff.mp h).1] at hpath
  have hsrc : (Record.keys (frameMaps base source target).src).filter (fun path =>
      ((frameMaps base source target).classOf path).isOnlyInTarget) = [] := by
    refine List.filter_eq_nil_iff.mpr fun path hpath h => ?_
    simp [Record.mem_keys, (isOnlyInTarget_iff.mp h).2.1] at hpath
  refine (filter_distinct _ _).trans ?_
  rw [List.filter_append, List.filter_append, hbase, hsrc, List.nil_append, List.nil_append]
  exact distinct_of_nodup ((Record.keys_nodup _).filter _)

/-- Exchanging the sides exchanges the paths that one side alone has. -/
theorem onlyInSource_swap (base source target : SemanticContent) :
    (prepareMerge base source target).onlyInSource =
      (prepareMerge base target source).onlyInTarget := by
  rw [onlyInSource_eq, onlyInTarget_eq]
  refine List.filter_congr fun path _ => Bool.eq_iff_iff.mpr ?_
  rw [isOnlyInSource_iff, isOnlyInTarget_iff]
  exact and_congr_right fun _ => and_comm

/-! ## The picked nodes of both merges -/

/-- The reading of a node of a merge. -/
abbrev Frame.toReading (f : Frame) : NodeReading Doc := f.reading SlotValue.read

/-- The nodes picked for a path that is kept by itself read alike in both merges. -/
theorem toReading_pickAt_swap (hmaps : maps.Ordinary) {path : JsString}
    (h : maps.classOf path = .autoKept) :
    (maps.swap.pickAt path).map Frame.toReading = (maps.pickAt path).map Frame.toReading := by
  obtain ⟨hsettled, f, hf, hid, hplaced, hfollows⟩ := pickAt_follows hmaps h
  obtain ⟨-, g, hg, hid', hplaced', hfollows'⟩ :=
    pickAt_follows hmaps.swap (classOf_swap_of_autoKept hmaps h)
  have hsame : g.id = f.id := hid'.trans hid.symm
  have htype := hplaced'.type_eq hplaced hsame
  have hslots : ∀ key, g.slotReading key = f.slotReading key := fun key =>
    (hfollows' key).swap.unique (hfollows key) (hsettled key)
  rw [hf, hg, Option.map_some, Option.map_some, Option.some.injEq]
  unfold Frame.toReading FlatNode.reading
  rw [hsame, htype]
  congr 1
  exact funext hslots

/-- Both merges keep nodes that read alike. -/
theorem keptFrames_swap (hb : base.Ordinary) (hs : source.Ordinary) (ht : target.Ordinary) : ((keptFrames base source target).map Frame.toReading).Perm
    ((keptFrames base target source).map Frame.toReading) := by
  have hmaps := ordinary_frameMaps hb hs ht
  have hauto : (prepareMerge base source target).autoKept.Perm
      (prepareMerge base target source).autoKept := by
    rw [List.perm_ext_iff_of_nodup nodup_autoKept nodup_autoKept]
    intro path
    rw [mem_autoKept, mem_autoKept, frameMaps_swap base source target]
    exact (classOf_swap_autoKept hmaps).symm
  have hreadings :
      (((frameMaps base source target).autoKeptFrames
        (prepareMerge base source target).autoKept).map Frame.toReading).Perm
      (((frameMaps base target source).autoKeptFrames
        (prepareMerge base target source).autoKept).map Frame.toReading) := by
    unfold FrameMaps.autoKeptFrames
    rw [List.map_filterMap, List.map_filterMap]
    refine (hauto.filterMap _).trans (List.Perm.of_eq ?_)
    refine List.filterMap_congr fun path hpath => ?_
    exact (toReading_pickAt_swap hmaps ((classOf_swap_autoKept hmaps).mp
      (mem_autoKept.mp hpath))).symm
  unfold keptFrames
  rw [onlyInSource_swap base source target, ← onlyInSource_swap base target source]
  simp only [List.map_append, List.append_assoc]
  exact hreadings.append List.perm_append_comm

end T3x.Semantic
