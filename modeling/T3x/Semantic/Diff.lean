import T3x.Semantic.Paths
import T3x.Js.Shape

/-!
# Comparing two contents

A diff compares the flattened trees of a source and a target path by path, and
the slots of a path that both have name by name. A name counts as present when
the object has it or inherits it.
-/

namespace T3x.Semantic

open Js

/-! ## Slots -/

/-- What happened to a slot. -/
inductive SlotDiffType where
  | added
  | removed
  | changed
deriving DecidableEq

/-- A slot that differs. -/
structure SlotDiff (W : Type) where
  /-- The name of the slot. -/
  key : JsString
  /-- What happened to it. -/
  type : SlotDiffType
  /-- The value in the source. -/
  oldValue : Option SlotValue
  /-- The value in the target. -/
  newValue : Option SlotValue
  /-- The difference of two texts by words. -/
  wordDiff : Option W

variable {W : Type}

/-- The runs of white space in a string, one that goes on from before left out. -/
def spaceRuns : Bool → JsString → ℕ
  | _, [] => 0
  | after, u :: s => (if isSpace u && !after then 1 else 0) + spaceRuns (isSpace u) s

/-- `s.split(/\s+/).length`. -/
def wordCount (s : JsString) : ℕ := spaceRuns false s + 1

/-- `WORD_DIFF_THRESHOLD`. -/
def wordDiffThreshold : ℕ := 5

/-- The difference by words of two values: texts of which the first is long enough. -/
def wordDiffOf (wordDiffFn : Option (JsString → JsString → W)) :
    SlotValue → SlotValue → Option W
  | .str old, .str new =>
    if wordDiffThreshold ≤ wordCount old then wordDiffFn.map fun f => f old new else none
  | _, _ => none

/-- The body of the loop of `diffSlots`: the difference of one slot. -/
def slotDiff (wordDiffFn : Option (JsString → JsString → W)) (source target : Record SlotValue)
    (key : JsString) : Option (SlotDiff W) :=
  match readSlot source key, readSlot target key with
  | some old, none => some ⟨key, .removed, some old, none, none⟩
  | none, some new => some ⟨key, .added, none, some new, none⟩
  | some old, some new =>
    if deepEqual old new 0 then none
    else some ⟨key, .changed, some old, some new, wordDiffOf wordDiffFn old new⟩
  | none, none => none

/-- `diffSlots(source, target, wordDiffFn)`. -/
def diffSlots (wordDiffFn : Option (JsString → JsString → W)) (source target : Record SlotValue) :
    List (SlotDiff W) :=
  (distinct (Record.keys source ++ Record.keys target)).filterMap
    (slotDiff wordDiffFn source target)

/-! ## Contents -/

/-- A path whose slots differ. -/
structure ModifiedPath (W : Type) where
  /-- The path. -/
  path : JsString
  /-- The slots that differ. -/
  slotDiffs : List (SlotDiff W)

/-- The differences of two contents. -/
structure TreeDiff (W : Type) where
  /-- The paths that are alike in both. -/
  identical : List JsString
  /-- The paths that both have and that differ. -/
  modified : List (ModifiedPath W)
  /-- The paths that only the source has. -/
  onlyInSource : List JsString
  /-- The paths that only the target has. -/
  onlyInTarget : List JsString
  /-- The relations that only the target has. -/
  relationsAdded : List Relation
  /-- The relations that only the source has. -/
  relationsRemoved : List Relation

/-- What becomes of a path of the source. -/
inductive DiffClass (W : Type) where
  | identical
  | modified (slotDiffs : List (SlotDiff W))
  | onlyInSource

/-- Whether a path is alike in both contents. -/
def DiffClass.isIdentical : DiffClass W → Bool
  | .identical => true
  | _ => false

/-- The slots that differ at a path that differs. -/
def DiffClass.modified? : DiffClass W → Option (List (SlotDiff W))
  | .modified slotDiffs => some slotDiffs
  | _ => none

/-- Whether a path is only in the source. -/
def DiffClass.isOnlyInSource : DiffClass W → Bool
  | .onlyInSource => true
  | _ => false

/-- The body of the loop of `diffCommits` over the nodes of the source. -/
def diffClass (wordDiffFn : Option (JsString → JsString → W)) (targetMap : Record Frame)
    (e : JsString × Frame) : DiffClass W :=
  match Record.get targetMap e.1 with
  | none => .onlyInSource
  | some tgtFrame =>
    let slotDiffs := diffSlots wordDiffFn e.2.slots tgtFrame.slots
    if slotDiffs.isEmpty && decide (e.2.type = tgtFrame.type) then .identical
    else .modified slotDiffs

/-- `diffCommits(source, target, wordDiffFn)`. -/
def diffCommits (wordDiffFn : Option (JsString → JsString → W)) (source target : SemanticContent) :
    TreeDiff W :=
  let sourceMap := frameMap source.frames
  let targetMap := frameMap target.frames
  let srcRelKeys := source.relations.map relKey
  let tgtRelKeys := target.relations.map relKey
  { identical :=
      (sourceMap.filter fun e => (diffClass wordDiffFn targetMap e).isIdentical).map Prod.fst
    modified := sourceMap.filterMap fun e =>
      (diffClass wordDiffFn targetMap e).modified?.map (ModifiedPath.mk e.1)
    onlyInSource :=
      (sourceMap.filter fun e => (diffClass wordDiffFn targetMap e).isOnlyInSource).map Prod.fst
    onlyInTarget := (targetMap.filter fun e => !Record.has sourceMap e.1).map Prod.fst
    relationsAdded := target.relations.filter fun r => !srcRelKeys.contains (relKey r)
    relationsRemoved := source.relations.filter fun r => !tgtRelKeys.contains (relKey r) }

/-! ## The paths of a diff -/

section Paths

variable {wordDiffFn : Option (JsString → JsString → W)} {source target : SemanticContent}

/-- The paths of a content. -/
def SemanticContent.paths (content : SemanticContent) : List JsString :=
  content.frames.map FlatNode.id

/-- The nodes of well-formed contents at one path have one type. -/
theorem SemanticContent.WellFormed.type_eq (hs : source.WellFormed) (ht : target.WellFormed)
    {f g : Frame} (hf : f ∈ source.frames) (hg : g ∈ target.frames) (hid : f.id = g.id) :
    f.type = g.type :=
  (hs.flattened.placed f hf).type_eq (ht.flattened.placed g hg) hid

/-- The nodes of a well-formed content at one path are one node. -/
theorem SemanticContent.WellFormed.eq_of_id (hs : source.WellFormed) {f g : Frame}
    (hf : f ∈ source.frames) (hg : g ∈ source.frames) (hid : f.id = g.id) : f = g :=
  List.inj_on_of_nodup_map hs.flattened.nodup hf hg hid

/-- What becomes of a path that both contents have. -/
theorem diffClass_of_mem (hs : source.WellFormed) (ht : target.WellFormed) {f g : Frame}
    (hf : f ∈ source.frames) (hg : g ∈ target.frames) (hid : f.id = g.id) :
    diffClass wordDiffFn (frameMap target.frames) (f.id, f) =
      if (diffSlots wordDiffFn f.slots g.slots).isEmpty then .identical
      else .modified (diffSlots wordDiffFn f.slots g.slots) := by
  have hget := (get_frameMap ht.flattened.nodup).mpr ⟨hg, hid.symm⟩
  simp only [diffClass, hget, hs.type_eq ht hf hg hid, decide_true, Bool.and_true]

/-- What becomes of a path that only the source has. -/
theorem diffClass_of_not_mem (ht : target.WellFormed) {f : Frame} (hf : f.id ∉ target.paths) :
    diffClass wordDiffFn (frameMap target.frames) (f.id, f) = .onlyInSource := by
  have hget : Record.get (frameMap target.frames) f.id = none := by
    rw [Option.eq_none_iff_forall_ne_some]
    intro g hg
    obtain ⟨hmem, hid⟩ := (get_frameMap ht.flattened.nodup).mp hg
    exact hf (List.mem_map.mpr ⟨g, hmem, hid⟩)
  simp only [diffClass, hget]

/-- The nodes of a well-formed content in its map. -/
theorem mem_frameMap (hs : source.WellFormed) {e : JsString × Frame} :
    e ∈ frameMap source.frames ↔ ∃ f ∈ source.frames, (f.id, f) = e := by
  rw [frameMap_eq_map hs.flattened.nodup, List.mem_map]

/-- A path is in the source's map exactly when a node of the source stands there. -/
theorem has_frameMap (hs : source.WellFormed) {id : JsString} :
    Record.has (frameMap source.frames) id = true ↔ id ∈ source.paths := by
  rw [← Record.mem_keys, keys_frameMap hs.flattened.nodup]
  rfl

/-- A node of the source stands where the target has one, or only the source has one. -/
theorem exists_or_not_mem (target : SemanticContent) (id : JsString) :
    (∃ g ∈ target.frames, g.id = id) ∨ id ∉ target.paths := by
  by_cases h : id ∈ target.paths
  · obtain ⟨g, hg, hid⟩ := List.mem_map.mp h
    exact .inl ⟨g, hg, hid⟩
  · exact .inr h

/-- The identical paths: both contents have them and no slot differs. -/
theorem mem_identical (hs : source.WellFormed) (ht : target.WellFormed) {id : JsString} :
    id ∈ (diffCommits wordDiffFn source target).identical ↔
      ∃ f ∈ source.frames, ∃ g ∈ target.frames, f.id = id ∧ g.id = id ∧
        diffSlots wordDiffFn f.slots g.slots = [] := by
  simp only [diffCommits, List.mem_map, List.mem_filter, mem_frameMap hs]
  constructor
  · rintro ⟨_, ⟨⟨f, hf, rfl⟩, hclass⟩, rfl⟩
    rcases exists_or_not_mem target f.id with ⟨g, hg, hid⟩ | hnot
    · rw [diffClass_of_mem hs ht hf hg hid.symm] at hclass
      refine ⟨f, hf, g, hg, rfl, hid, ?_⟩
      split_ifs at hclass with hempty
      · exact List.isEmpty_iff.mp hempty
      · cases hclass
    · rw [diffClass_of_not_mem ht hnot] at hclass
      cases hclass
  · rintro ⟨f, hf, g, hg, rfl, hid, hempty⟩
    refine ⟨(f.id, f), ⟨⟨f, hf, rfl⟩, ?_⟩, rfl⟩
    rw [diffClass_of_mem hs ht hf hg hid.symm, if_pos (List.isEmpty_iff.mpr hempty)]
    rfl

/-- The modified paths: both contents have them and the slots that differ are listed. -/
theorem mem_modified (hs : source.WellFormed) (ht : target.WellFormed) {m : ModifiedPath W} :
    m ∈ (diffCommits wordDiffFn source target).modified ↔
      ∃ f ∈ source.frames, ∃ g ∈ target.frames, f.id = m.path ∧ g.id = m.path ∧
        diffSlots wordDiffFn f.slots g.slots = m.slotDiffs ∧ m.slotDiffs ≠ [] := by
  simp only [diffCommits, List.mem_filterMap, mem_frameMap hs, Option.map_eq_some_iff]
  constructor
  · rintro ⟨_, ⟨f, hf, rfl⟩, slotDiffs, hclass, rfl⟩
    rcases exists_or_not_mem target f.id with ⟨g, hg, hid⟩ | hnot
    · rw [diffClass_of_mem hs ht hf hg hid.symm] at hclass
      refine ⟨f, hf, g, hg, rfl, hid, ?_⟩
      split_ifs at hclass with hempty
      · cases hclass
      · obtain rfl := Option.some.inj hclass
        exact ⟨rfl, fun hnil => hempty (List.isEmpty_iff.mpr hnil)⟩
    · rw [diffClass_of_not_mem ht hnot] at hclass
      cases hclass
  · obtain ⟨path, slotDiffs⟩ := m
    rintro ⟨f, hf, g, hg, rfl, hid, rfl, hne⟩
    refine ⟨(f.id, f), ⟨f, hf, rfl⟩, diffSlots wordDiffFn f.slots g.slots, ?_, rfl⟩
    rw [diffClass_of_mem hs ht hf hg hid.symm,
      if_neg fun hempty => hne (List.isEmpty_iff.mp hempty)]
    rfl

/-- The paths only in the source. -/
theorem mem_onlyInSource_diff (hs : source.WellFormed) (ht : target.WellFormed) {id : JsString} :
    id ∈ (diffCommits wordDiffFn source target).onlyInSource ↔
      id ∈ source.paths ∧ id ∉ target.paths := by
  simp only [diffCommits, List.mem_map, List.mem_filter, mem_frameMap hs]
  constructor
  · rintro ⟨_, ⟨⟨f, hf, rfl⟩, hclass⟩, rfl⟩
    refine ⟨List.mem_map_of_mem hf, fun hmem => ?_⟩
    obtain ⟨g, hg, hid⟩ := List.mem_map.mp hmem
    rw [diffClass_of_mem hs ht hf hg hid.symm] at hclass
    split_ifs at hclass
    all_goals cases hclass
  · rintro ⟨hmem, hnot⟩
    obtain ⟨f, hf, rfl⟩ := List.mem_map.mp hmem
    refine ⟨(f.id, f), ⟨⟨f, hf, rfl⟩, ?_⟩, rfl⟩
    rw [diffClass_of_not_mem ht hnot]
    rfl

/-- The paths only in the target. -/
theorem mem_onlyInTarget_diff (hs : source.WellFormed) (ht : target.WellFormed) {id : JsString} :
    id ∈ (diffCommits wordDiffFn source target).onlyInTarget ↔
      id ∉ source.paths ∧ id ∈ target.paths := by
  simp only [diffCommits, List.mem_map, List.mem_filter, mem_frameMap ht, Bool.not_eq_true',
    ← Bool.not_eq_true, has_frameMap hs]
  constructor
  · rintro ⟨_, ⟨⟨g, hg, rfl⟩, hnot⟩, rfl⟩
    exact ⟨hnot, List.mem_map_of_mem hg⟩
  · rintro ⟨hnot, hmem⟩
    obtain ⟨g, hg, rfl⟩ := List.mem_map.mp hmem
    exact ⟨(g.id, g), ⟨⟨g, hg, rfl⟩, hnot⟩, rfl⟩

/-- The four lists of paths of a diff, one after another. -/
def TreeDiff.paths (d : TreeDiff W) : List JsString :=
  d.identical ++ d.modified.map ModifiedPath.path ++ d.onlyInSource ++ d.onlyInTarget

/-- Some paths of a map with distinct names differ. -/
theorem nodup_filter_names {T : Type} {map : Record T} (h : (map.map Prod.fst).Nodup)
    (p : JsString × T → Bool) : ((map.filter p).map Prod.fst).Nodup :=
  h.sublist (List.filter_sublist.map _)

/-- The names of the map of a well-formed content differ. -/
theorem nodup_frameMap (hs : source.WellFormed) :
    ((frameMap source.frames).map Prod.fst).Nodup := by
  rw [frameMap_eq_map hs.flattened.nodup, List.map_map]
  exact hs.flattened.nodup

/-- No path is listed twice. -/
theorem nodup_paths_diff (hs : source.WellFormed) (ht : target.WellFormed) :
    (diffCommits wordDiffFn source target).paths.Nodup := by
  have hmodified : (diffCommits wordDiffFn source target).modified.map ModifiedPath.path =
      ((frameMap source.frames).filter fun e =>
        (diffClass wordDiffFn (frameMap target.frames) e).modified?.isSome).map Prod.fst := by
    rw [diffCommits]
    induction frameMap source.frames with
    | nil => rfl
    | cons e map ih =>
      cases hclass : (diffClass wordDiffFn (frameMap target.frames) e).modified? <;>
        simp [hclass, ih]
  have hs' := nodup_frameMap hs
  refine List.nodup_append.mpr ⟨List.nodup_append.mpr ⟨List.nodup_append.mpr
    ⟨nodup_filter_names hs' _, hmodified ▸ nodup_filter_names hs' _, ?_⟩,
    nodup_filter_names hs' _, ?_⟩, nodup_filter_names (nodup_frameMap ht) _, ?_⟩
  · rintro id hid _ hmod rfl
    obtain ⟨f, hf, g, hg, hfid, hgid, hempty⟩ := (mem_identical hs ht).mp hid
    obtain ⟨m, hm, rfl⟩ := List.mem_map.mp hmod
    obtain ⟨f', hf', g', hg', hfid', hgid', hdiffs, hne⟩ := (mem_modified hs ht).mp hm
    obtain rfl := hs.eq_of_id hf hf' (hfid.trans hfid'.symm)
    obtain rfl := ht.eq_of_id hg hg' (hgid.trans hgid'.symm)
    exact hne (hdiffs.symm.trans hempty)
  · rintro id hid _ honly rfl
    have hnot := ((mem_onlyInSource_diff hs ht).mp honly).2
    rcases List.mem_append.mp hid with hid | hid
    · obtain ⟨f, hf, g, hg, hfid, hgid, hempty⟩ := (mem_identical hs ht).mp hid
      exact hnot (hgid ▸ List.mem_map_of_mem hg)
    · obtain ⟨m, hm, rfl⟩ := List.mem_map.mp hid
      obtain ⟨f, hf, g, hg, hfid, hgid, -⟩ := (mem_modified hs ht).mp hm
      exact hnot (hgid ▸ List.mem_map_of_mem hg)
  · rintro id hid _ honly rfl
    have hnot := ((mem_onlyInTarget_diff hs ht).mp honly).1
    rcases List.mem_append.mp hid with hid | hid
    · rcases List.mem_append.mp hid with hid | hid
      · obtain ⟨f, hf, g, hg, hfid, hgid, hempty⟩ := (mem_identical hs ht).mp hid
        exact hnot (hfid ▸ List.mem_map_of_mem hf)
      · obtain ⟨m, hm, rfl⟩ := List.mem_map.mp hid
        obtain ⟨f, hf, g, hg, hfid, hgid, -⟩ := (mem_modified hs ht).mp hm
        exact hnot (hfid ▸ List.mem_map_of_mem hf)
    · exact hnot ((mem_onlyInSource_diff hs ht).mp hid).1

/-- A path is listed exactly when one of the contents has it. -/
theorem mem_paths_diff (hs : source.WellFormed) (ht : target.WellFormed) {id : JsString} :
    id ∈ (diffCommits wordDiffFn source target).paths ↔ id ∈ source.paths ∨ id ∈ target.paths := by
  simp only [TreeDiff.paths, List.mem_append, mem_identical hs ht, mem_onlyInSource_diff hs ht,
    mem_onlyInTarget_diff hs ht, List.mem_map, mem_modified hs ht]
  constructor
  · rintro (((⟨f, hf, -, -, hid, -⟩ | ⟨m, ⟨f, hf, -, -, hid, -⟩, rfl⟩) | h) | h)
    · exact .inl (hid ▸ List.mem_map_of_mem hf)
    · exact .inl (hid ▸ List.mem_map_of_mem hf)
    · exact .inl h.1
    · exact .inr h.2
  · intro h
    by_cases hsource : id ∈ source.paths
    · obtain ⟨f, hf, rfl⟩ := List.mem_map.mp hsource
      rcases exists_or_not_mem target f.id with ⟨g, hg, hid⟩ | hnot
      · left; left
        by_cases hempty : diffSlots wordDiffFn f.slots g.slots = []
        · exact .inl ⟨f, hf, g, hg, rfl, hid, hempty⟩
        · exact .inr ⟨⟨f.id, _⟩, ⟨f, hf, g, hg, rfl, hid, rfl, hempty⟩, rfl⟩
      · exact .inl (.inr ⟨hsource, hnot⟩)
    · exact .inr ⟨hsource, h.resolve_left hsource⟩

end Paths

end T3x.Semantic
