import T3x.Semantic.MergeLaws

/-!
# Merging with an unchanged side

When one side of a merge is the base itself nothing is in conflict, and keeping
everything gives the other side. The comparison takes a node for equal to itself
however deep its values are nested, and nodes that it takes for equal read alike.
-/

namespace T3x.Semantic

open Js ThreeWay

/-- A well-formed content whose nodes are plain. -/
structure SemanticContent.Plain (content : SemanticContent) : Prop where
  /-- The trees are well formed. -/
  wellFormed : content.WellFormed
  /-- The nodes are plain. -/
  frames : ∀ f ∈ content.frames, f.Plain

instance (content : SemanticContent) : Decidable content.Plain :=
  decidable_of_iff (content.WellFormed ∧ (content.frames.all fun f => decide f.Plain) = true) <| by
    simp only [List.all_eq_true, decide_eq_true_eq]
    exact ⟨fun h => ⟨h.1, h.2⟩, fun h => ⟨h.wellFormed, h.frames⟩⟩

variable {base other source target : SemanticContent}

/-- The nodes that the map of a plain content holds are plain. -/
theorem SemanticContent.Plain.of_get {content : SemanticContent} (h : content.Plain)
    {path : JsString} {f : Frame} (hf : Record.get (frameMap content.frames) path = some f) :
    f.Plain :=
  h.frames f ((get_frameMap h.wellFormed.flattened.nodup).mp hf).1

/-- The paths of a well-formed content are the names of its map. -/
theorem mem_map_id_frames {content : SemanticContent} (h : content.WellFormed)
    {path : JsString} : path ∈ content.frames.map FlatNode.id ↔
      Record.has (frameMap content.frames) path = true := by
  rw [← Record.mem_keys, keys_frameMap h.flattened.nodup]

/-- Nodes of the same distinct paths that read alike one by one read alike up to order. -/
theorem map_toReading_perm {xs ys : List Frame} (hxs : (xs.map FlatNode.id).Nodup)
    (hys : (ys.map FlatNode.id).Nodup)
    (hids : ∀ path, path ∈ xs.map FlatNode.id ↔ path ∈ ys.map FlatNode.id)
    (hread : ∀ f ∈ xs, ∃ g ∈ ys, f.toReading = g.toReading) :
    (xs.map Frame.toReading).Perm (ys.map Frame.toReading) := by
  have hnodup : (xs.map Frame.toReading).Nodup := by
    refine List.Nodup.of_map NodeReading.id ?_
    rw [List.map_map]
    exact hxs
  have hsubset : xs.map Frame.toReading ⊆ ys.map Frame.toReading := by
    intro r hr
    obtain ⟨f, hf, rfl⟩ := List.mem_map.mp hr
    obtain ⟨g, hg, heq⟩ := hread f hf
    exact List.mem_map.mpr ⟨g, hg, heq.symm⟩
  refine (hnodup.subperm hsubset).perm_of_length_le ?_
  have hlen := ((List.perm_ext_iff_of_nodup hxs hys).mpr hids).length_eq
  simp only [List.length_map] at hlen ⊢
  exact hlen.ge

/-- The maps of a merge restore a map: its paths are kept, and each kept node reads as
the node that the map holds under its path. -/
structure Restores (maps : FrameMaps) (map : Record Frame) : Prop where
  /-- No path is in conflict. -/
  no_conflict : ∀ path slotConflicts, maps.classOf path ≠ .conflict slotConflicts
  /-- A picked node reads as the map's. -/
  autoKept : ∀ path, maps.classOf path = .autoKept → ∃ f g, maps.pickAt path = some f ∧
    Record.get map path = some g ∧ f.toReading = g.toReading
  /-- A node only in the source is the map's. -/
  onlyInSource : ∀ path, maps.classOf path = .onlyInSource →
    Record.get maps.src path = Record.get map path
  /-- A node only in the target is the map's. -/
  onlyInTarget : ∀ path, maps.classOf path = .onlyInTarget →
    Record.get maps.tgt path = Record.get map path
  /-- No path of the map is dropped. -/
  kept : ∀ path, Record.has map path = true → maps.classOf path ≠ .dropped

/-- A merge that restores the map of a content keeps nodes that read as the content's. -/
theorem keptFrames_of_restores (hmaps : (frameMaps base source target).WellFormed)
    (hother : other.WellFormed)
    (h : Restores (frameMaps base source target) (frameMap other.frames)) :
    ((keptFrames base source target).map Frame.toReading).Perm
      (other.frames.map Frame.toReading) := by
  have hnodup := hother.flattened.nodup
  have hfound : ∀ f ∈ keptFrames base source target, ∃ g,
      Record.get (frameMap other.frames) f.id = some g ∧ f.toReading = g.toReading := by
    intro f hf
    rcases List.mem_append.mp hf with hf | hf
    · rcases List.mem_append.mp hf with hf | hf
      · obtain ⟨path, hpath, hpick⟩ := List.mem_filterMap.mp hf
        obtain ⟨f', g, hf', hg, hread⟩ := h.autoKept path (mem_autoKept.mp hpath)
        obtain ⟨f'', hf'', hid, -⟩ := pickAt_placed hmaps (mem_autoKept.mp hpath)
        obtain rfl := Option.some.inj (hpick.symm.trans hf')
        obtain rfl := Option.some.inj (hpick.symm.trans hf'')
        exact ⟨g, hid ▸ hg, hread⟩
      · obtain ⟨path, hpath, hget⟩ := List.mem_filterMap.mp hf
        have heq := h.onlyInSource path (mem_onlyInSource.mp hpath)
        rw [hget] at heq
        rw [hmaps.src.id_eq hget]
        exact ⟨f, heq.symm, rfl⟩
    · obtain ⟨path, hpath, hget⟩ := List.mem_filterMap.mp hf
      have heq := h.onlyInTarget path (mem_onlyInTarget.mp hpath)
      rw [hget] at heq
      rw [hmaps.tgt.id_eq hget]
      exact ⟨f, heq.symm, rfl⟩
  refine map_toReading_perm (nodup_keptFrames hmaps) hnodup (fun path => ?_) fun f hf => ?_
  · rw [mem_map_id_frames hother]
    constructor
    · intro hpath
      obtain ⟨f, hf, rfl⟩ := List.mem_map.mp hpath
      obtain ⟨g, hg, -⟩ := hfound f hf
      exact Record.has_eq_true.mpr ⟨g, hg⟩
    · intro hpath
      rw [map_id_keptFrames hmaps, List.mem_append, List.mem_append, mem_autoKept,
        mem_onlyInSource, mem_onlyInTarget]
      cases hclass : (frameMaps base source target).classOf path with
      | autoKept => exact .inl (.inl rfl)
      | onlyInSource => exact .inl (.inr rfl)
      | onlyInTarget => exact .inr rfl
      | conflict slotConflicts => exact absurd hclass (h.no_conflict path slotConflicts)
      | dropped => exact absurd hclass (h.kept path hpath)
  · obtain ⟨g, hg, hread⟩ := hfound f hf
    exact ⟨g, ((get_frameMap hnodup).mp hg).1, hread⟩

/-- A merge that restores a content results in it, up to the records of relations. -/
theorem executeMerge_of_restores (hmaps : (frameMaps base source target).WellFormed)
    (hother : other.WellFormed)
    (h : Restores (frameMaps base source target) (frameMap other.frames))
    (hrelations : ∀ key, key ∈ other.relations.map relKey ↔
      (key ∈ source.relations.map relKey ∧ key ∈ target.relations.map relKey) ∨
      (key ∉ base.relations.map relKey ∧
        (key ∈ source.relations.map relKey ∨ key ∈ target.relations.map relKey))) :
    (prepareMerge base source target).conflicts = [] ∧
      ∀ decisions, MergeDecision.KeepsAll decisions (prepareMerge base source target) →
        ∃ merged, executeMerge base source target (prepareMerge base source target) decisions =
          .ok merged ∧ SameContent merged other := by
  have hconflicts := no_conflicts_iff.mpr h.no_conflict
  refine ⟨hconflicts, fun decisions hkeeps => ⟨_,
    executeMerge_of_editFree (editFree_of_no_conflicts hconflicts), ?_, fun key => ?_⟩⟩
  · have hperm := keptFrames_of_restores hmaps hother h
    have hids : ((keptFrames base source target).map FlatNode.id).Perm
        (other.frames.map FlatNode.id) := by
      have hmap := hperm.map NodeReading.id
      rwa [List.map_map, List.map_map] at hmap
    have hflat : IsFlattened (keptFrames base source target) := by
      refine ⟨fun f hf => isPlaced_keptFrames hmaps hf, nodup_keptFrames hmaps, fun f hf => ?_⟩
      obtain ⟨g, hg, hid⟩ := List.mem_map.mp (hids.mem_iff.mp (List.mem_map.mpr ⟨f, hf, rfl⟩))
      rw [← hid]
      exact anchored_congr hids.symm.subset (hother.flattened.anchored g hg)
    rw [chosenFrames_of_keepsAll hconflicts hkeeps]
    exact ((flattenTrees_unflattenToTrees_perm hflat).map _).trans hperm
  · rw [mem_relKey_mergedRelations hkeeps, hrelations]

/-- Nodes of one path and one type read alike when their slots do. -/
theorem toReading_eq {f g : Frame} (hid : f.id = g.id) (htype : f.type = g.type)
    (hslots : ∀ key, f.slotReading key = g.slotReading key) : f.toReading = g.toReading := by
  unfold Frame.toReading FlatNode.reading
  rw [hid, htype]
  congr 1
  exact funext hslots

/-! ## A side that is the base -/

/-- The class of a path when one side is the base: `only` is the class of the paths that
the other side alone has. -/
def oneSidedClass (only : PathClass) : (base other : Option Frame) → PathClass
  | some _, some _ => .autoKept
  | none, some _ => only
  | _, none => .dropped

/-- The classes of paths when the source is the base. -/
theorem classify_source_unchanged (b t : Option Frame) :
    classify b b t = oneSidedClass .onlyInTarget b t := by
  cases b with
  | none => cases t <;> rfl
  | some b =>
    have hself := framesEqual_self b
    cases t with
    | none => exact if_pos hself
    | some t =>
      rw [classify, hself, oneSidedClass]
      simp

/-- The classes of paths when the target is the base. -/
theorem classify_target_unchanged (b s : Option Frame) :
    classify b s b = oneSidedClass .onlyInSource b s := by
  cases b with
  | none => cases s <;> rfl
  | some b =>
    have hself := framesEqual_self b
    cases s with
    | none => exact if_pos hself
    | some s =>
      rw [classify, hself, oneSidedClass]
      simp

/-- When the source is the base the picked node reads as the target's. -/
theorem pick_source_unchanged {b t : Frame} (hb : b.Plain) (ht : t.Plain) :
    ∃ f, pickAutoKept (some b) (some b) (some t) = some f ∧
      ∀ key, f.slotReading key = t.slotReading key := by
  have hself := framesEqual_self b
  rw [pickAutoKept, hself]
  cases hbt : framesEqual b t with
  | true => exact ⟨b, by simp, (framesEqual_sound hb ht hbt).2⟩
  | false => exact ⟨t, by simp, fun _ => rfl⟩

/-- The merge of a node with one that reads alike, against itself, reads as both. -/
theorem mergeNonConflicting_of_same {b s : Frame} (hb : b.Plain)
    (hread : ∀ key, b.slotReading key = s.slotReading key) (key : JsString) :
    (mergeNonConflicting b s b).slotReading key = s.slotReading key := by
  have hkeys : ∀ key, key ∈ Record.keys b.slots ↔ key ∈ Record.keys s.slots := by
    intro key
    have hsome := congrArg Option.isSome (hread key)
    rw [Frame.slotReading, Frame.slotReading, Option.isSome_map, Option.isSome_map] at hsome
    rw [Record.mem_keys, Record.mem_keys, Record.has, Record.has, hsome]
  have hown : ∀ key ∈ allNames b s b, OwnName b s b key := by
    intro key hkey
    simp only [allNames, mem_distinct, List.mem_append, ← hkeys key, or_self] at hkey
    exact ⟨hb.name_ne hkey, readSlot_of_mem_keys hkey, readSlot_of_mem_keys ((hkeys key).mp hkey),
      readSlot_of_mem_keys hkey⟩
  have hself : deepEqualOptional (Record.get b.slots key) (Record.get b.slots key) = true := by
    cases Record.get b.slots key with
    | none => rfl
    | some v => exact deepEqual_self v (Nat.zero_le _)
  rw [Frame.slotReading, get_mergeNonConflicting hown, mergedValue, hself]
  cases deepEqualOptional (Record.get s.slots key) (Record.get b.slots key) with
  | false => rfl
  | true => exact hread key

/-- When the target is the base the picked node reads as the source's. -/
theorem pick_target_unchanged {b s : Frame} (hb : b.Plain) (hs : s.Plain) :
    ∃ f, pickAutoKept (some b) (some s) (some b) = some f ∧
      ∀ key, f.slotReading key = s.slotReading key := by
  have hself := framesEqual_self b
  rw [pickAutoKept, hself]
  cases hsb : framesEqual s b with
  | true => exact ⟨s, by simp, fun _ => rfl⟩
  | false =>
    cases hbs : framesEqual b s with
    | false => exact ⟨s, by simp, fun _ => rfl⟩
    | true =>
      exact ⟨mergeNonConflicting b s b, by simp,
        mergeNonConflicting_of_same hb (framesEqual_sound hb hs hbs).2⟩

/-- A merge whose source is the base restores the target. -/
theorem restores_of_source_unchanged (hb : base.Plain) (ho : other.Plain) :
    Restores (frameMaps base base other) (frameMap other.frames) := by
  have hmaps := wellFormed_frameMaps hb.wellFormed hb.wellFormed ho.wellFormed
  have hclass : ∀ path, (frameMaps base base other).classOf path =
      oneSidedClass .onlyInTarget (Record.get (frameMap base.frames) path)
        (Record.get (frameMap other.frames) path) := fun _ => classify_source_unchanged _ _
  refine ⟨fun path slotConflicts => ?_, fun path hauto => ?_, fun path honly => ?_,
    fun path _ => rfl, fun path hhas => ?_⟩
  · rw [hclass, oneSidedClass.eq_def]
    split <;> simp
  · obtain ⟨f, hf, hid, hplaced⟩ := pickAt_placed hmaps hauto
    rw [hclass, oneSidedClass.eq_def] at hauto
    split at hauto
    · rename_i b t hbase hother
      obtain ⟨f', hf', hread⟩ := pick_source_unchanged (hb.of_get hbase) (ho.of_get hother)
      have hpick : (frameMaps base base other).pickAt path = some f' := by
        rw [← hf', ← hbase, ← hother]
        rfl
      obtain rfl := Option.some.inj (hf.symm.trans hpick)
      have hsame : f.id = t.id := hid.trans (hmaps.tgt.id_eq hother).symm
      exact ⟨f, t, hf, hother, toReading_eq hsame
        (hplaced.type_eq (hmaps.tgt.placed hother) hsame) hread⟩
    · simp at hauto
    · simp at hauto
  · rw [hclass, oneSidedClass.eq_def] at honly
    split at honly <;> simp at honly
  · obtain ⟨t, ht⟩ := Record.has_eq_true.mp hhas
    rw [hclass, ht]
    cases Record.get (frameMap base.frames) path <;> simp [oneSidedClass]

/-- A merge whose target is the base restores the source. -/
theorem restores_of_target_unchanged (hb : base.Plain) (ho : other.Plain) :
    Restores (frameMaps base other base) (frameMap other.frames) := by
  have hmaps := wellFormed_frameMaps hb.wellFormed ho.wellFormed hb.wellFormed
  have hclass : ∀ path, (frameMaps base other base).classOf path =
      oneSidedClass .onlyInSource (Record.get (frameMap base.frames) path)
        (Record.get (frameMap other.frames) path) := fun _ => classify_target_unchanged _ _
  refine ⟨fun path slotConflicts => ?_, fun path hauto => ?_, fun path _ => rfl,
    fun path honly => ?_, fun path hhas => ?_⟩
  · rw [hclass, oneSidedClass.eq_def]
    split <;> simp
  · obtain ⟨f, hf, hid, hplaced⟩ := pickAt_placed hmaps hauto
    rw [hclass, oneSidedClass.eq_def] at hauto
    split at hauto
    · rename_i b s hbase hother
      obtain ⟨f', hf', hread⟩ := pick_target_unchanged (hb.of_get hbase) (ho.of_get hother)
      have hpick : (frameMaps base other base).pickAt path = some f' := by
        rw [← hf', ← hbase, ← hother]
        rfl
      obtain rfl := Option.some.inj (hf.symm.trans hpick)
      have hsame : f.id = s.id := hid.trans (hmaps.src.id_eq hother).symm
      exact ⟨f, s, hf, hother, toReading_eq hsame
        (hplaced.type_eq (hmaps.src.placed hother) hsame) hread⟩
    · simp at hauto
    · simp at hauto
  · rw [hclass, oneSidedClass.eq_def] at honly
    split at honly <;> simp at honly
  · obtain ⟨t, ht⟩ := Record.has_eq_true.mp hhas
    rw [hclass, ht]
    cases Record.get (frameMap base.frames) path <;> simp [oneSidedClass]

/-- Merging a content with an unchanged side gives the other side. -/
structure MergeIdentity (base other : SemanticContent) : Prop where
  /-- Nothing is in conflict when the source is the base. -/
  source_conflicts : (prepareMerge base base other).conflicts = []
  /-- Keeping everything gives the target when the source is the base. -/
  source_unchanged : ∀ decisions,
    MergeDecision.KeepsAll decisions (prepareMerge base base other) → ∃ merged,
      executeMerge base base other (prepareMerge base base other) decisions = .ok merged ∧
      SameContent merged other
  /-- Nothing is in conflict when the target is the base. -/
  target_conflicts : (prepareMerge base other base).conflicts = []
  /-- Keeping everything gives the source when the target is the base. -/
  target_unchanged : ∀ decisions,
    MergeDecision.KeepsAll decisions (prepareMerge base other base) → ∃ merged,
      executeMerge base other base (prepareMerge base other base) decisions = .ok merged ∧
      SameContent merged other

end T3x.Semantic
