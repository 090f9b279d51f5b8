import T3x.Semantic.Diff
import T3x.Semantic.Frames
import T3x.Semantic.TakenFor

/-!
# When a diff is exact

A diff is exact when it lists every path once in its class, the modified paths
with the slots that differ and their values, and when exchanging the contents
exchanges its sides. Two things stand in the way: a slot that only one content
has under a name that every object inherits, and a value that is taken for
another that reads differently.
-/

namespace T3x.Semantic

open Js

/-! ## Exact slot differences -/

variable {W : Type}

/-- What happened to a slot, from its values. -/
def slotDiffType : Option SlotValue → Option SlotValue → SlotDiffType
  | some _, none => .removed
  | none, some _ => .added
  | _, _ => .changed

/-- The difference of a slot as it should be listed: nothing where both have it with one
reading, or neither has it. -/
noncomputable def exactSlotDiff (source target : Record SlotValue) (key : JsString) :
    Option (SlotDiff W) :=
  open Classical in
  if (Record.get source key).map SlotValue.read = (Record.get target key).map SlotValue.read then
    none
  else some ⟨key, slotDiffType (Record.get source key) (Record.get target key),
    Record.get source key, Record.get target key, none⟩

/-- Whether a slot is told right: a value taken for another reads as it does, and a slot
that one side alone has is not named as what every object inherits. -/
def TellsSlot (source target : Record SlotValue) (key : JsString) : Prop :=
  match Record.get source key, Record.get target key with
  | some v, some w => SlotValue.takenFor v w → v.read = w.read
  | none, none => True
  | _, _ => key ∉ inheritedNames

/-- A slot of data values, not nested too deep. -/
def ShallowData (slots : Record SlotValue) : Prop :=
  ∀ e ∈ slots, e.2.isData = true ∧ e.2.nesting ≤ maxDepth

/-- Without a word diff no words are compared. -/
theorem wordDiffOf_none (v w : SlotValue) :
    wordDiffOf (none : Option (JsString → JsString → W)) v w = none := by
  cases v <;> cases w <;> simp [wordDiffOf]

/-- The code lists the difference of a slot as it should exactly when it tells the slot. -/
theorem slotDiff_eq_exact_iff {s t : Record SlotValue} (hs : ShallowData s) (ht : ShallowData t)
    (key : JsString) :
    slotDiff (none : Option (JsString → JsString → W)) s t key = exactSlotDiff s t key ↔
      TellsSlot s t key := by
  unfold slotDiff exactSlotDiff TellsSlot readSlot
  cases hv : Record.get s key with
  | none =>
    cases hw : Record.get t key with
    | none =>
      by_cases hkey : key ∈ inheritedNames
      · simp [hkey, deepEqual_self]
      · simp [hkey]
    | some w =>
      have hdata := (ht _ (Record.mem_of_get hw)).1
      by_cases hkey : key ∈ inheritedNames
      · simp [hkey]
      · simp [hkey, slotDiffType]
  | some v =>
    have hdata := hs _ (Record.mem_of_get hv)
    cases hw : Record.get t key with
    | none =>
      by_cases hkey : key ∈ inheritedNames
      · simp [hkey]
      · simp [hkey, slotDiffType]
    | some w =>
      have hdata' := (ht _ (Record.mem_of_get hw)).1
      have hequal : deepEqual v w 0 = true ↔ SlotValue.takenFor v w :=
        deepEqual_iff_takenFor hdata.1 hdata' hdata.2
      by_cases hread : v.read = w.read
      · have htaken := hequal.mpr (SlotValue.takenFor_of_read hdata.1 hdata' hread)
        simp [hread, htaken]
      · by_cases htaken : SlotValue.takenFor v w
        · simp [hread, hequal.mpr htaken, htaken]
        · have hdeep : deepEqual v w 0 = false := by
            rw [← Bool.not_eq_true, hequal]
            exact htaken
          simp [hread, hdeep, htaken, slotDiffType, wordDiffOf_none]

/-- The difference of a slot has the slot's name. -/
theorem key_of_slotDiff {wordDiffFn : Option (JsString → JsString → W)}
    {s t : Record SlotValue} {key : JsString} {d : SlotDiff W}
    (h : slotDiff wordDiffFn s t key = some d) : d.key = key := by
  unfold slotDiff at h
  split at h
  · exact Option.some.inj h ▸ rfl
  · exact Option.some.inj h ▸ rfl
  · split_ifs at h
    exact Option.some.inj h ▸ rfl
  · cases h

/-- The listed differences are those of all slots. -/
theorem mem_diffSlots {wordDiffFn : Option (JsString → JsString → W)} {s t : Record SlotValue}
    {d : SlotDiff W} : d ∈ diffSlots wordDiffFn s t ↔ slotDiff wordDiffFn s t d.key = some d := by
  rw [diffSlots, List.mem_filterMap]
  constructor
  · rintro ⟨key, -, hkey⟩
    rwa [key_of_slotDiff hkey]
  · intro h
    refine ⟨d.key, ?_, h⟩
    simp only [mem_distinct, List.mem_append, Record.mem_keys]
    by_contra hnone
    simp only [not_or, Bool.not_eq_true, Record.has_eq_false] at hnone
    -- what neither side has of its own both inherit, or neither
    rw [slotDiff, readSlot, readSlot, hnone.1, hnone.2] at h
    by_cases hkey : d.key ∈ inheritedNames <;> simp [hkey, deepEqual_self] at h

/-- No slot is listed twice. -/
theorem nodup_diffSlots (wordDiffFn : Option (JsString → JsString → W)) (s t : Record SlotValue) :
    ((diffSlots wordDiffFn s t).map SlotDiff.key).Nodup := by
  have hsub : ∀ keys : List JsString,
      ((keys.filterMap (slotDiff wordDiffFn s t)).map SlotDiff.key).Sublist keys := by
    intro keys
    induction keys with
    | nil => exact List.Sublist.slnil
    | cons key keys ih =>
      cases hkey : slotDiff wordDiffFn s t key with
      | none =>
        rw [List.filterMap_cons_none hkey]
        exact ih.cons key
      | some d =>
        rw [List.filterMap_cons_some hkey, List.map_cons, key_of_slotDiff hkey]
        exact ih.cons_cons key
  exact (nodup_distinct _).sublist (hsub _)

/-! ## Exact diffs -/

/-- What happened to a slot, seen from the other side. -/
def SlotDiffType.exchange : SlotDiffType → SlotDiffType
  | .added => .removed
  | .removed => .added
  | .changed => .changed

/-- The difference of a slot, seen from the other side. -/
def SlotDiff.exchange (d : SlotDiff W) : SlotDiff W :=
  ⟨d.key, d.type.exchange, d.newValue, d.oldValue, d.wordDiff⟩

/-- Exchanging the sides exchanges what should be listed. -/
theorem exactSlotDiff_exchange (s t : Record SlotValue) (key : JsString) :
    (exactSlotDiff t s key : Option (SlotDiff W)) =
      (exactSlotDiff s t key).map SlotDiff.exchange := by
  unfold exactSlotDiff
  split_ifs with h h' h'
  · rfl
  · exact absurd h.symm h'
  · exact absurd h'.symm h
  · cases Record.get s key <;> cases Record.get t key <;> rfl

/-- What should be listed for a slot is under its name. -/
theorem key_of_exactSlotDiff {s t : Record SlotValue} {key : JsString} {d : SlotDiff W}
    (h : exactSlotDiff s t key = some d) : d.key = key := by
  unfold exactSlotDiff at h
  split_ifs at h
  exact Option.some.inj h ▸ rfl

/-- Something should be listed for a slot exactly when its readings differ. -/
theorem exactSlotDiff_isSome {s t : Record SlotValue} {key : JsString} :
    (∃ d : SlotDiff W, exactSlotDiff s t key = some d) ↔
      (Record.get s key).map SlotValue.read ≠ (Record.get t key).map SlotValue.read := by
  unfold exactSlotDiff
  split_ifs with h <;> simp [h]

/-- A diff lists every path once in its class, and at each modified path the slots that
differ with their values. -/
structure TreeDiff.IsExact (d : TreeDiff W) (source target : SemanticContent) : Prop where
  /-- No path is listed twice. -/
  nodup : d.paths.Nodup
  /-- The paths of both contents are listed, and no others. -/
  paths : ∀ id, id ∈ d.paths ↔ id ∈ source.paths ∨ id ∈ target.paths
  /-- The removed paths are those that only the source has. -/
  onlyInSource : ∀ id, id ∈ d.onlyInSource ↔ id ∈ source.paths ∧ id ∉ target.paths
  /-- The added paths are those that only the target has. -/
  onlyInTarget : ∀ id, id ∈ d.onlyInTarget ↔ id ∉ source.paths ∧ id ∈ target.paths
  /-- The modified paths are those that both have with some slot that differs. -/
  modified : ∀ id, id ∈ d.modified.map ModifiedPath.path ↔
    ∃ f ∈ source.frames, ∃ g ∈ target.frames, f.id = id ∧ g.id = id ∧
      ∃ key, f.slotReading key ≠ g.slotReading key
  /-- At a modified path each slot that differs is listed once, and no others. -/
  slots : ∀ m ∈ d.modified, ∀ f ∈ source.frames, ∀ g ∈ target.frames, f.id = m.path →
    g.id = m.path → (m.slotDiffs.map SlotDiff.key).Nodup ∧
      ∀ sd, sd ∈ m.slotDiffs ↔ exactSlotDiff f.slots g.slots sd.key = some sd

/-- A diff is another one seen from the other side. -/
structure TreeDiff.IsExchange (d d' : TreeDiff W) : Prop where
  /-- The unchanged paths are the same. -/
  identical : d'.identical.Perm d.identical
  /-- The modified paths are the same. -/
  modified : (d'.modified.map ModifiedPath.path).Perm (d.modified.map ModifiedPath.path)
  /-- The differences of slots are exchanged. -/
  slots : ∀ m ∈ d.modified, ∀ m' ∈ d'.modified, m.path = m'.path →
    m'.slotDiffs.Perm (m.slotDiffs.map SlotDiff.exchange)
  /-- What was added is removed. -/
  onlyInSource : d'.onlyInSource.Perm d.onlyInTarget
  /-- What was removed is added. -/
  onlyInTarget : d'.onlyInTarget.Perm d.onlyInSource
  /-- The relations that were removed are added. -/
  relationsAdded : d'.relationsAdded = d.relationsRemoved
  /-- The relations that were added are removed. -/
  relationsRemoved : d'.relationsRemoved = d.relationsAdded

/-- A content that diffs are claimed exact of: its trees are well formed and its slots
hold data that are not nested too deep. -/
structure SemanticContent.IsDiffable (content : SemanticContent) : Prop where
  /-- The trees are well formed. -/
  wellFormed : content.WellFormed
  /-- The slots hold data, not nested too deep. -/
  slots : ∀ f ∈ content.frames, ShallowData f.slots

/-- Every slot of a path that both contents have is told right, seen from either side. -/
def TellsSlots (source target : SemanticContent) : Prop :=
  ∀ f ∈ source.frames, ∀ g ∈ target.frames, f.id = g.id → ∀ key,
    TellsSlot f.slots g.slots key ∧ TellsSlot g.slots f.slots key

/-- Seeing a difference from the other side twice gives it back. -/
@[simp] theorem SlotDiff.exchange_exchange (d : SlotDiff W) : d.exchange.exchange = d := by
  obtain ⟨key, type, old, new, word⟩ := d
  cases type <;> rfl

/-- A difference should be listed from one side exactly when it should from the other. -/
theorem exactSlotDiff_eq_some_exchange {s t : Record SlotValue} {key : JsString}
    {d : SlotDiff W} :
    exactSlotDiff t s key = some d ↔ exactSlotDiff s t key = some d.exchange := by
  rw [exactSlotDiff_exchange s t, Option.map_eq_some_iff]
  constructor
  · rintro ⟨d', hd', rfl⟩
    rwa [SlotDiff.exchange_exchange]
  · exact fun h => ⟨d.exchange, h, d.exchange_exchange⟩

namespace TreeDiff.IsExact

variable {source target : SemanticContent} {d d' : TreeDiff W}

/-- The unchanged paths are those that both contents have and that are not modified. -/
theorem mem_identical (h : d.IsExact source target) {id : JsString} :
    id ∈ d.identical ↔ id ∈ source.paths ∧ id ∈ target.paths ∧
      id ∉ d.modified.map ModifiedPath.path := by
  have hpaths := h.paths id
  have hsource := h.onlyInSource id
  have htarget := h.onlyInTarget id
  have hnodup := h.nodup
  simp only [TreeDiff.paths, List.nodup_append, List.mem_append] at hnodup hpaths
  obtain ⟨⟨⟨-, -, hmodified⟩, -, honlySource⟩, -, honlyTarget⟩ := hnodup
  constructor
  · intro hid
    have hnotSource : id ∉ d.onlyInSource := fun hmem => honlySource id (.inl hid) id hmem rfl
    have hnotTarget : id ∉ d.onlyInTarget := fun hmem =>
      honlyTarget id (.inl (.inl hid)) id hmem rfl
    have hlisted := hpaths.mp (.inl (.inl (.inl hid)))
    refine ⟨?_, ?_, fun hmem => hmodified id hid id hmem rfl⟩ <;> tauto
  · rintro ⟨hs, ht, hnot⟩
    have hlisted := hpaths.mpr (.inl hs)
    tauto

/-- The modified paths differ. -/
theorem nodup_modified (h : d.IsExact source target) :
    (d.modified.map ModifiedPath.path).Nodup := by
  have hnodup := h.nodup
  simp only [TreeDiff.paths, List.nodup_append] at hnodup
  exact hnodup.1.1.2.1

/-- The four lists of an exact diff do not repeat. -/
theorem nodup_classes (h : d.IsExact source target) :
    d.identical.Nodup ∧ d.onlyInSource.Nodup ∧ d.onlyInTarget.Nodup := by
  have hnodup := h.nodup
  simp only [TreeDiff.paths, List.nodup_append] at hnodup
  exact ⟨hnodup.1.1.1, hnodup.1.2.1, hnodup.2.1⟩

/-- Whether a path is modified does not depend on the side. -/
theorem modified_iff (h : d.IsExact source target) (h' : d'.IsExact target source)
    (id : JsString) :
    id ∈ d'.modified.map ModifiedPath.path ↔ id ∈ d.modified.map ModifiedPath.path := by
  rw [h.modified, h'.modified]
  constructor
  · rintro ⟨g, hg, f, hf, hgid, hfid, key, hkey⟩
    exact ⟨f, hf, g, hg, hfid, hgid, key, hkey.symm⟩
  · rintro ⟨f, hf, g, hg, hfid, hgid, key, hkey⟩
    exact ⟨g, hg, f, hf, hgid, hfid, key, hkey.symm⟩

end TreeDiff.IsExact

section Main

variable {source target : SemanticContent}

/-- Exact diffs of two contents from both sides are each other seen from the other side. -/
theorem isExchange_of_isExact (h : (diffCommits (none : Option (JsString → JsString → W))
      source target).IsExact source target)
    (h' : (diffCommits (none : Option (JsString → JsString → W))
      target source).IsExact target source) :
    (diffCommits (none : Option (JsString → JsString → W)) source target).IsExchange
      (diffCommits none target source) where
  identical := by
    rw [List.perm_ext_iff_of_nodup h'.nodup_classes.1 h.nodup_classes.1]
    intro id
    rw [h.mem_identical, h'.mem_identical, h.modified_iff h']
    exact and_left_comm
  modified := (List.perm_ext_iff_of_nodup h'.nodup_modified h.nodup_modified).mpr
    (h.modified_iff h')
  slots m hm m' hm' hpath := by
    obtain ⟨f, hf, g, hg, hfid, hgid, -⟩ :=
      (h.modified m.path).mp (List.mem_map_of_mem hm)
    obtain ⟨hnodup, hmem⟩ := h.slots m hm f hf g hg hfid hgid
    obtain ⟨hnodup', hmem'⟩ := h'.slots m' hm' g hg f hf (hgid.trans hpath) (hfid.trans hpath)
    have hkeys : ((m.slotDiffs.map SlotDiff.exchange).map SlotDiff.key).Nodup := by
      rwa [List.map_map]
    rw [List.perm_ext_iff_of_nodup (List.Nodup.of_map _ hnodup') (List.Nodup.of_map _ hkeys)]
    intro sd
    rw [hmem', exactSlotDiff_eq_some_exchange, List.mem_map]
    constructor
    · exact fun hsd => ⟨sd.exchange, (hmem _).mpr hsd, sd.exchange_exchange⟩
    · rintro ⟨sd, hsd, rfl⟩
      rw [SlotDiff.exchange_exchange]
      exact (hmem sd).mp hsd
  onlyInSource := by
    rw [List.perm_ext_iff_of_nodup h'.nodup_classes.2.1 h.nodup_classes.2.2]
    intro id
    rw [h'.onlyInSource, h.onlyInTarget]
    exact and_comm
  onlyInTarget := by
    rw [List.perm_ext_iff_of_nodup h'.nodup_classes.2.2 h.nodup_classes.2.1]
    intro id
    rw [h'.onlyInTarget, h.onlyInSource]
    exact and_comm
  relationsAdded := rfl
  relationsRemoved := rfl

/-- The diff of the exchanged contents is exact where the diff is and exchanging the
contents exchanges its sides. -/
theorem isExact_of_isExchange (hs : source.WellFormed) (ht : target.WellFormed)
    (h : (diffCommits (none : Option (JsString → JsString → W)) source target).IsExact
      source target)
    (hex : (diffCommits (none : Option (JsString → JsString → W)) source target).IsExchange
      (diffCommits none target source)) :
    (diffCommits (none : Option (JsString → JsString → W)) target source).IsExact
      target source where
  nodup := nodup_paths_diff ht hs
  paths _ := mem_paths_diff ht hs
  onlyInSource _ := mem_onlyInSource_diff ht hs
  onlyInTarget _ := mem_onlyInTarget_diff ht hs
  modified id := by
    rw [hex.modified.mem_iff, h.modified]
    constructor
    · rintro ⟨f, hf, g, hg, hfid, hgid, key, hkey⟩
      exact ⟨g, hg, f, hf, hgid, hfid, key, hkey.symm⟩
    · rintro ⟨g, hg, f, hf, hgid, hfid, key, hkey⟩
      exact ⟨f, hf, g, hg, hfid, hgid, key, hkey.symm⟩
  slots m' hm' g hg f hf hgid hfid := by
    have hpath := hex.modified.mem_iff.mp (List.mem_map_of_mem hm')
    obtain ⟨m, hm, hpath⟩ := List.mem_map.mp hpath
    obtain ⟨hnodup, hmem⟩ := h.slots m hm f hf g hg (hfid.trans hpath.symm) (hgid.trans hpath.symm)
    have hperm := hex.slots m hm m' hm' hpath
    have hkeys := (hperm.map SlotDiff.key).nodup_iff
    rw [List.map_map] at hkeys
    refine ⟨hkeys.mpr hnodup, fun sd => ?_⟩
    rw [hperm.mem_iff, List.mem_map, exactSlotDiff_eq_some_exchange]
    constructor
    · rintro ⟨sd, hsd, rfl⟩
      rw [SlotDiff.exchange_exchange]
      exact (hmem sd).mp hsd
    · exact fun hsd => ⟨sd.exchange, (hmem _).mpr hsd, sd.exchange_exchange⟩

/-- The diff of contents whose slots are told right is exact. -/
theorem isExact_of_tells (hs : source.IsDiffable) (ht : target.IsDiffable)
    (h : ∀ f ∈ source.frames, ∀ g ∈ target.frames, f.id = g.id → ∀ key,
      TellsSlot f.slots g.slots key) :
    (diffCommits (none : Option (JsString → JsString → W)) source target).IsExact
      source target := by
  have hdiffs : ∀ f ∈ source.frames, ∀ g ∈ target.frames, f.id = g.id → ∀ key,
      slotDiff (none : Option (JsString → JsString → W)) f.slots g.slots key =
        exactSlotDiff f.slots g.slots key := fun f hf g hg hid key =>
    (slotDiff_eq_exact_iff (hs.slots f hf) (ht.slots g hg) key).mpr (h f hf g hg hid key)
  refine ⟨nodup_paths_diff hs.wellFormed ht.wellFormed, fun _ =>
    mem_paths_diff hs.wellFormed ht.wellFormed, fun _ =>
    mem_onlyInSource_diff hs.wellFormed ht.wellFormed, fun _ =>
    mem_onlyInTarget_diff hs.wellFormed ht.wellFormed, fun id => ?_, fun m hm f hf g hg hfid hgid =>
    ?_⟩
  · simp only [List.mem_map, mem_modified hs.wellFormed ht.wellFormed]
    constructor
    · rintro ⟨m, ⟨f, hf, g, hg, hfid, hgid, hlist, hne⟩, rfl⟩
      refine ⟨f, hf, g, hg, hfid, hgid, ?_⟩
      obtain ⟨sd, hsd⟩ := List.exists_mem_of_ne_nil _ hne
      rw [← hlist, mem_diffSlots, hdiffs f hf g hg (hfid.trans hgid.symm)] at hsd
      exact ⟨sd.key, exactSlotDiff_isSome.mp ⟨sd, hsd⟩⟩
    · rintro ⟨f, hf, g, hg, rfl, hgid, key, hkey⟩
      refine ⟨⟨f.id, _⟩, ⟨f, hf, g, hg, rfl, hgid, rfl, ?_⟩, rfl⟩
      obtain ⟨sd, hsd⟩ := exactSlotDiff_isSome.mpr hkey
      refine List.ne_nil_of_mem (mem_diffSlots.mpr ?_) (a := sd)
      rw [hdiffs f hf g hg hgid.symm, key_of_exactSlotDiff hsd, hsd]
  · obtain ⟨f', hf', g', hg', hfid', hgid', hlist, -⟩ :=
      (mem_modified hs.wellFormed ht.wellFormed).mp hm
    obtain rfl := hs.wellFormed.eq_of_id hf hf' (hfid.trans hfid'.symm)
    obtain rfl := ht.wellFormed.eq_of_id hg hg' (hgid.trans hgid'.symm)
    rw [← hlist]
    refine ⟨nodup_diffSlots _ _ _, fun sd => ?_⟩
    rw [mem_diffSlots, hdiffs f hf g hg (hfid.trans hgid.symm)]

/-- The slots of contents whose diff is exact are told right. -/
theorem tells_of_isExact (hs : source.IsDiffable) (ht : target.IsDiffable)
    (h : (diffCommits (none : Option (JsString → JsString → W)) source target).IsExact
      source target)
    {f g : Frame} (hf : f ∈ source.frames) (hg : g ∈ target.frames) (hid : f.id = g.id)
    (key : JsString) : TellsSlot f.slots g.slots key := by
  rw [← slotDiff_eq_exact_iff (hs.slots f hf) (ht.slots g hg) (W := W)]
  have hlisted : ∀ sd : SlotDiff W,
      diffSlots (none : Option (JsString → JsString → W)) f.slots g.slots ≠ [] →
      (slotDiff none f.slots g.slots sd.key = some sd ↔
        exactSlotDiff f.slots g.slots sd.key = some sd) := by
    intro sd hne
    have hm := (mem_modified hs.wellFormed ht.wellFormed
      (m := ⟨f.id, diffSlots none f.slots g.slots⟩)).mpr ⟨f, hf, g, hg, rfl, hid.symm, rfl, hne⟩
    rw [← (h.slots _ hm f hf g hg rfl hid.symm).2 sd, mem_diffSlots]
  cases hexact : (exactSlotDiff f.slots g.slots key : Option (SlotDiff W)) with
  | some sd =>
    have hkey := key_of_exactSlotDiff hexact
    obtain ⟨m, hm, hpath⟩ := List.mem_map.mp ((h.modified f.id).mpr
      ⟨f, hf, g, hg, rfl, hid.symm, key, exactSlotDiff_isSome.mp ⟨sd, hexact⟩⟩)
    obtain ⟨f', hf', g', hg', hfid, hgid, hlist, hne⟩ :=
      (mem_modified hs.wellFormed ht.wellFormed).mp hm
    obtain rfl := hs.wellFormed.eq_of_id hf hf' (hpath.symm.trans hfid.symm)
    obtain rfl := ht.wellFormed.eq_of_id hg hg' (hid.symm.trans (hpath.symm.trans hgid.symm))
    subst hkey
    exact (hlisted sd (hlist ▸ hne)).mpr hexact
  | none =>
    rw [Option.eq_none_iff_forall_ne_some]
    intro sd hsd
    have hkey := key_of_slotDiff hsd
    subst hkey
    have hmem : sd ∈ diffSlots none f.slots g.slots := mem_diffSlots.mpr hsd
    rw [(hlisted sd (List.ne_nil_of_mem hmem)).mp hsd] at hexact
    cases hexact

/-- A diff is exact, and exchanging the contents exchanges its sides, exactly when every
slot of a path that both have is told right from either side. -/
theorem diffCommits_exact_iff (hs : source.IsDiffable) (ht : target.IsDiffable) :
    ((diffCommits (none : Option (JsString → JsString → W)) source target).IsExact source target ∧
      (diffCommits (none : Option (JsString → JsString → W)) source target).IsExchange
        (diffCommits none target source)) ↔ TellsSlots source target := by
  constructor
  · rintro ⟨hexact, hexchange⟩ f hf g hg hid key
    have hexact' := isExact_of_isExchange hs.wellFormed ht.wellFormed hexact hexchange
    exact ⟨tells_of_isExact hs ht hexact hf hg hid key,
      tells_of_isExact ht hs hexact' hg hf hid.symm key⟩
  · intro h
    have hexact := isExact_of_tells (W := W) hs ht fun f hf g hg hid key => (h f hf g hg hid key).1
    have hexact' := isExact_of_tells (W := W) ht hs fun g hg f hf hid key =>
      (h f hf g hg hid.symm key).2
    exact ⟨hexact, isExchange_of_isExact hexact hexact'⟩

/-- A content of one topic with one slot, which holds a text. -/
def slotContent (name value : JsString) : SemanticContent :=
  ⟨[.node (js "a") [(name, .str value)] []], []⟩

/-- A content of one topic with one slot can be diffed. -/
theorem isDiffable_slotContent (name value : JsString) : (slotContent name value).IsDiffable where
  wellFormed := ⟨List.nodup_singleton _, allWellFormed_iff.mpr fun tree htree => by
    obtain rfl := List.mem_singleton.mp htree
    exact TreeNode.wellFormed_node.mpr ⟨by decide, by decide, List.nodup_nil, rfl⟩⟩
  slots f hf := by
    obtain rfl : f = ⟨js "a", js "a", [(name, .str value)]⟩ := by
      simpa [slotContent, SemanticContent.frames, flattenTrees, flattenChildren, flattenNode,
        extendPath] using hf
    intro e he
    obtain rfl := List.mem_singleton.mp he
    exact ⟨rfl, Nat.zero_le _⟩

/-- The diff of a text that changed is exact from both sides. -/
theorem diffCommits_exact_changed :
    (diffCommits (none : Option (JsString → JsString → JsString)) (slotContent (js "x") (js "1"))
      (slotContent (js "x") (js "2"))).IsExact (slotContent (js "x") (js "1"))
        (slotContent (js "x") (js "2")) ∧
      (diffCommits (none : Option (JsString → JsString → JsString))
        (slotContent (js "x") (js "1")) (slotContent (js "x") (js "2"))).IsExchange
        (diffCommits none (slotContent (js "x") (js "2")) (slotContent (js "x") (js "1"))) := by
  refine (diffCommits_exact_iff (isDiffable_slotContent _ _) (isDiffable_slotContent _ _)).mpr ?_
  intro f hf g hg _ key
  obtain rfl : f = ⟨js "a", js "a", [(js "x", .str (js "1"))]⟩ := by
    simpa [slotContent, SemanticContent.frames, flattenTrees, flattenChildren, flattenNode,
      extendPath] using hf
  obtain rfl : g = ⟨js "a", js "a", [(js "x", .str (js "2"))]⟩ := by
    simpa [slotContent, SemanticContent.frames, flattenTrees, flattenChildren, flattenNode,
      extendPath] using hg
  by_cases hkey : js "x" = key
  · have hne : js "1" ≠ js "2" := by decide
    simp [TellsSlot, Record.get, hkey, SlotValue.takenFor, SlotValue.strictEq, hne, Ne.symm hne]
  · simp [TellsSlot, Record.get, hkey]

/-- A slot named as what every object inherits, removed in the target: the diff lists it
as changed to the inherited value. -/
theorem diffCommits_inherited_not_exact :
    (slotContent (js "constructor") (js "x")).IsDiffable ∧
      (slotContent (js "y") (js "x")).IsDiffable ∧
      ¬ (diffCommits (none : Option (JsString → JsString → JsString))
        (slotContent (js "constructor") (js "x")) (slotContent (js "y") (js "x"))).IsExact
          (slotContent (js "constructor") (js "x")) (slotContent (js "y") (js "x")) := by
  refine ⟨isDiffable_slotContent _ _, isDiffable_slotContent _ _, fun hexact => ?_⟩
  have htells := tells_of_isExact (isDiffable_slotContent _ _) (isDiffable_slotContent _ _) hexact
    (f := ⟨js "a", js "a", [(js "constructor", .str (js "x"))]⟩)
    (g := ⟨js "a", js "a", [(js "y", .str (js "x"))]⟩)
    (List.mem_singleton.mpr rfl) (List.mem_singleton.mpr rfl) rfl (js "constructor")
  exact htells (by decide)

end Main

end T3x.Semantic
