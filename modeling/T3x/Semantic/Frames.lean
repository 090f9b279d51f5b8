import T3x.Semantic.Merge
import T3x.ThreeWay

/-!
# What the merge sees of nodes

The comparison of nodes decides whether they read alike, down to the depth it
looks to; the slots of a merged node are read off one by one; and the classes of
paths are told by how the slots of their nodes differ.
-/

namespace T3x.Semantic

open Js ThreeWay

/-- What a slot of a node reads as. -/
def Frame.slotReading (f : Frame) (key : JsString) : Option Doc :=
  (Record.get f.slots key).map SlotValue.read

/-- A node whose slot values are of the source's type, with no member named as the
prototype accessor. -/
def Frame.Plain (f : Frame) : Prop := SlotValue.plainMembers f.slots = true

/-- A plain node whose slots have names that no object inherits and values nested no
deeper than the comparison looks. -/
structure Frame.Ordinary (f : Frame) : Prop where
  /-- The node is plain. -/
  plain : f.Plain
  /-- No object inherits the name of a slot. -/
  names : ∀ e ∈ f.slots, e.1 ∉ inheritedNames
  /-- The values are not nested too deep. -/
  shallow : ∀ e ∈ f.slots, e.2.nesting ≤ maxDepth

instance (f : Frame) : Decidable f.Plain := inferInstanceAs (Decidable (_ = _))

instance (f : Frame) : Decidable f.Ordinary :=
  decidable_of_iff (f.Plain ∧ (f.slots.all fun e =>
      decide (e.1 ∉ inheritedNames ∧ e.2.nesting ≤ maxDepth)) = true) <| by
    simp only [List.all_eq_true, decide_eq_true_eq]
    exact ⟨fun h => ⟨h.1, fun e he => (h.2 e he).1, fun e he => (h.2 e he).2⟩,
      fun h => ⟨h.plain, fun e he => ⟨h.names e he, h.shallow e he⟩⟩⟩

/-- A slot of a plain node has a plain value. -/
theorem Frame.Plain.value {f : Frame} (h : f.Plain) {key : JsString} {v : SlotValue}
    (hv : Record.get f.slots key = some v) : v.plain = true :=
  (SlotValue.plainMembers_iff.mp h _ (Record.mem_of_get hv)).2

/-- A slot of a plain node is not named as the prototype accessor. -/
theorem Frame.Plain.name_ne {f : Frame} (h : f.Plain) {key : JsString}
    (hkey : key ∈ Record.keys f.slots) : key ≠ Record.protoName := by
  obtain ⟨v, hv⟩ := Record.has_eq_true.mp (Record.mem_keys.mp hkey)
  exact (SlotValue.plainMembers_iff.mp h _ (Record.mem_of_get hv)).1

/-- A slot of an ordinary node has a name that no object inherits. -/
theorem Frame.Ordinary.name {f : Frame} (h : f.Ordinary) {key : JsString}
    (hkey : key ∈ Record.keys f.slots) : key ∉ inheritedNames := by
  obtain ⟨v, hv⟩ := Record.has_eq_true.mp (Record.mem_keys.mp hkey)
  exact h.names _ (Record.mem_of_get hv)

/-! ## Comparing nodes -/

/-- Nodes that compare equal have one type and read alike. -/
theorem framesEqual_sound {a b : Frame} (ha : a.Plain) (hb : b.Plain)
    (h : framesEqual a b = true) :
    a.type = b.type ∧ ∀ key, a.slotReading key = b.slotReading key := by
  rw [framesEqual, Bool.and_eq_true, decide_eq_true_eq] at h
  refine ⟨h.1, read_of_everyMember ha hb h.2 fun e he w hw heq => ?_⟩
  exact deepEqual_sound (SlotValue.plainMembers_iff.mp ha e he).2 hw heq

/-- Ordinary nodes of one type that read alike compare equal. -/
theorem framesEqual_complete {a b : Frame} (ha : a.Ordinary) (hb : b.Plain)
    (htype : a.type = b.type) (h : ∀ key, a.slotReading key = b.slotReading key) :
    framesEqual a b = true := by
  rw [framesEqual, Bool.and_eq_true, decide_eq_true_eq]
  refine ⟨htype, everyMember_of_read ha.plain hb h fun e he w hw heq => ?_⟩
  exact deepEqual_complete (SlotValue.plainMembers_iff.mp ha.plain e he).2 hw
    (ha.shallow e he) heq

/-- Ordinary nodes of one type compare equal exactly when they read alike. -/
theorem framesEqual_iff {a b : Frame} (ha : a.Ordinary) (hb : b.Ordinary)
    (htype : a.type = b.type) :
    framesEqual a b = true ↔ ∀ key, a.slotReading key = b.slotReading key :=
  ⟨fun h => (framesEqual_sound ha.plain hb.plain h).2, framesEqual_complete ha hb.plain htype⟩

/-- A node compares equal to itself, however deep its values are nested. -/
theorem framesEqual_self (f : Frame) : framesEqual f f = true := by
  rw [framesEqual, Bool.and_eq_true, decide_eq_true_eq]
  refine ⟨rfl, ?_⟩
  rw [everyMember, memberTests_eq_mapValues, Bool.and_eq_true, decide_eq_true_eq,
    Record.keys_mapValues, Record.entries_mapValues]
  refine ⟨rfl, ?_⟩
  simp only [Record.mapValues, List.all_map, List.all_eq_true, Function.comp_apply, Prod.forall,
    Record.mem_entries]
  intro key v hv
  rw [readSlot, hv]
  exact deepEqual_self v (Nat.zero_le _)

/-- The slot of a name that no object inherits is an own slot. -/
theorem readSlot_of_not_inherited {slots : Record SlotValue} {key : JsString}
    (hkey : key ∉ inheritedNames) : readSlot slots key = Record.get slots key := by
  unfold readSlot
  cases Record.get slots key with
  | none => exact if_neg hkey
  | some v => rfl

/-- A slot that a node has is an own slot. -/
theorem readSlot_of_mem_keys {slots : Record SlotValue} {key : JsString}
    (hkey : key ∈ Record.keys slots) : readSlot slots key = Record.get slots key := by
  obtain ⟨v, hv⟩ := Record.has_eq_true.mp (Record.mem_keys.mp hkey)
  rw [readSlot, hv]

/-- Slots of ordinary nodes compare equal exactly when they read alike. -/
theorem deepEqualOptional_iff {f g : Frame} (hf : f.Ordinary) (hg : g.Ordinary)
    (key : JsString) :
    deepEqualOptional (Record.get f.slots key) (Record.get g.slots key) = true ↔
      f.slotReading key = g.slotReading key := by
  unfold Frame.slotReading
  cases hv : Record.get f.slots key with
  | none => cases hw : Record.get g.slots key <;> simp [deepEqualOptional]
  | some v =>
    cases hw : Record.get g.slots key with
    | none => simp [deepEqualOptional]
    | some w =>
      rw [deepEqualOptional, Option.map_some, Option.map_some, Option.some.injEq]
      exact ⟨deepEqual_sound (hf.plain.value hv) (hg.plain.value hw),
        deepEqual_complete (hf.plain.value hv) (hg.plain.value hw)
          (hf.shallow _ (Record.mem_of_get hv))⟩

/-! ## Merging the slots of a node -/

/-- Reading after writing a slot. -/
theorem get_writeSlot {slots : Record SlotValue} {key : JsString} (hkey : key ≠ Record.protoName)
    (value : Option SlotValue) (key' : JsString) :
    Record.get (writeSlot slots key value) key' =
      if key' = key then value else Record.get slots key' := by
  cases value with
  | none => exact Record.get_erase _ _ _
  | some v => simp [writeSlot, Record.get_assign, hkey]

/-- The value that the merge of a node gives a slot. -/
def mergedValue (base src tgt : Frame) (key : JsString) : Option SlotValue :=
  if !deepEqualOptional (Record.get src.slots key) (Record.get base.slots key) then
    Record.get src.slots key
  else if !deepEqualOptional (Record.get tgt.slots key) (Record.get base.slots key) then
    Record.get tgt.slots key
  else Record.get base.slots key

/-- A name under which the slots of three nodes are their own. -/
structure OwnName (base src tgt : Frame) (key : JsString) : Prop where
  /-- The name is not that of the prototype accessor. -/
  ne : key ≠ Record.protoName
  /-- The base has its own slot or none. -/
  base : readSlot base.slots key = Record.get base.slots key
  /-- The source has its own slot or none. -/
  src : readSlot src.slots key = Record.get src.slots key
  /-- The target has its own slot or none. -/
  tgt : readSlot tgt.slots key = Record.get tgt.slots key

/-- One round of the merge writes one slot. -/
theorem get_mergeSlot {base src tgt : Frame} {slots : Record SlotValue} {key : JsString}
    (hown : OwnName base src tgt key)
    (hslots : Record.get slots key = Record.get base.slots key) (key' : JsString) :
    Record.get (mergeSlot base src tgt slots key) key' =
      if key' = key then mergedValue base src tgt key else Record.get slots key' := by
  unfold mergeSlot mergedValue
  rw [hown.base, hown.src, hown.tgt]
  by_cases hsrc : (!deepEqualOptional (Record.get src.slots key) (Record.get base.slots key)) = true
  · rw [if_pos hsrc, if_pos hsrc, get_writeSlot hown.ne]
  rw [if_neg hsrc, if_neg hsrc]
  by_cases htgt : (!deepEqualOptional (Record.get tgt.slots key) (Record.get base.slots key)) = true
  · rw [if_pos htgt, if_pos htgt, get_writeSlot hown.ne]
  rw [if_neg htgt, if_neg htgt]
  split_ifs with hkey
  · rw [hkey, hslots]
  · rfl

/-- The rounds of the merge write the slots of their names. -/
theorem get_foldl_mergeSlot {base src tgt : Frame} {names : List JsString}
    {slots : Record SlotValue} (hnames : names.Nodup)
    (hown : ∀ key ∈ names, OwnName base src tgt key)
    (hslots : ∀ key ∈ names, Record.get slots key = Record.get base.slots key) (key : JsString) :
    Record.get (names.foldl (mergeSlot base src tgt) slots) key =
      if key ∈ names then mergedValue base src tgt key else Record.get slots key := by
  induction names generalizing slots with
  | nil => simp
  | cons name names ih =>
    obtain ⟨hnot, hrest⟩ := List.nodup_cons.mp hnames
    have hstep := get_mergeSlot (hown name List.mem_cons_self) (hslots name List.mem_cons_self)
    rw [List.foldl_cons, ih hrest (fun k hk => hown k (List.mem_cons_of_mem _ hk))]
    · rw [hstep]
      by_cases hkey : key = name
      · subst hkey
        simp [hnot]
      · simp [hkey]
    · intro k hk
      have hne : k ≠ name := by
        rintro rfl
        exact hnot hk
      rw [hstep, if_neg hne]
      exact hslots k (List.mem_cons_of_mem _ hk)

/-- The names of the slots of three nodes. -/
def allNames (base src tgt : Frame) : List JsString :=
  distinct (Record.keys src.slots ++ Record.keys tgt.slots ++ Record.keys base.slots)

/-- A name outside is the name of no slot. -/
theorem get_eq_none_of_not_mem_allNames {base src tgt : Frame} {key : JsString}
    (hkey : key ∉ allNames base src tgt) :
    Record.get src.slots key = none ∧ Record.get tgt.slots key = none ∧
      Record.get base.slots key = none := by
  simp only [allNames, mem_distinct, List.mem_append, Record.mem_keys, not_or,
    Bool.not_eq_true, Record.has_eq_false] at hkey
  exact ⟨hkey.1.1, hkey.1.2, hkey.2⟩

/-- The slots of a merged node. -/
theorem get_mergeNonConflicting {base src tgt : Frame}
    (hown : ∀ key ∈ allNames base src tgt, OwnName base src tgt key) (key : JsString) :
    Record.get (mergeNonConflicting base src tgt).slots key = mergedValue base src tgt key := by
  have hfold := get_foldl_mergeSlot (nodup_distinct _) hown (fun _ _ => rfl) key
  refine hfold.trans ?_
  split_ifs with hkey
  · rfl
  · obtain ⟨hsrc, htgt, hbase⟩ := get_eq_none_of_not_mem_allNames hkey
    simp [mergedValue, hsrc, htgt, hbase, deepEqualOptional]

/-- The names of the slots of ordinary nodes are their own. -/
theorem ownName_of_ordinary {base src tgt : Frame} (hb : base.Ordinary) (hs : src.Ordinary)
    (ht : tgt.Ordinary) {key : JsString} (hkey : key ∈ allNames base src tgt) :
    OwnName base src tgt key := by
  have hinherited : key ∉ inheritedNames := by
    simp only [allNames, mem_distinct, List.mem_append] at hkey
    rcases hkey with (hkey | hkey) | hkey
    · exact hs.name hkey
    · exact ht.name hkey
    · exact hb.name hkey
  refine ⟨?_, readSlot_of_not_inherited hinherited, readSlot_of_not_inherited hinherited,
    readSlot_of_not_inherited hinherited⟩
  rintro rfl
  exact hinherited (by decide)

/-- Every slot of the merge of ordinary nodes follows the side that changed it. -/
theorem mergeNonConflicting_follows {base src tgt : Frame} (hb : base.Ordinary)
    (hs : src.Ordinary) (ht : tgt.Ordinary) (key : JsString) :
    Follows id (base.slotReading key) (src.slotReading key) (tgt.slotReading key)
      ((mergeNonConflicting base src tgt).slotReading key) := by
  have hvalue : (mergeNonConflicting base src tgt).slotReading key =
      (mergedValue base src tgt key).map SlotValue.read := by
    rw [Frame.slotReading, get_mergeNonConflicting fun key => ownName_of_ordinary hb hs ht]
  have hsrc := deepEqualOptional_iff hs hb key
  have htgt := deepEqualOptional_iff ht hb key
  rw [hvalue, mergedValue]
  cases hs' : deepEqualOptional (Record.get src.slots key) (Record.get base.slots key) with
  | false =>
    have hchanged : src.slotReading key ≠ base.slotReading key := fun h => by
      simp [hsrc.mpr h] at hs'
    exact ⟨fun _ => rfl, fun h => absurd h hchanged, fun _ => rfl⟩
  | true =>
    have hkept := hsrc.mp hs'
    cases ht' : deepEqualOptional (Record.get tgt.slots key) (Record.get base.slots key) with
    | false =>
      have hchanged : tgt.slotReading key ≠ base.slotReading key := fun h => by
        simp [htgt.mpr h] at ht'
      exact ⟨fun h => absurd h hchanged, fun _ => rfl, fun h => h.symm⟩
    | true => exact ⟨fun _ => hkept.symm, fun _ => (htgt.mp ht').symm, fun _ => hkept.symm⟩

/-! ## The classes of paths -/

/-- A slot of three ordinary nodes is in conflict exactly when it reads pairwise
differently. -/
theorem slotConflict_eq_none_iff {base src tgt : Frame} (hb : base.Ordinary)
    (hs : src.Ordinary) (ht : tgt.Ordinary) {key : JsString} (hkey : key ∉ inheritedNames) :
    slotConflict (some base) (some src) (some tgt) key = none ↔
      ¬ Differ id (base.slotReading key) (src.slotReading key) (tgt.slotReading key) := by
  unfold slotConflict slotAt
  simp only [Option.bind_some, readSlot_of_not_inherited hkey, Option.isSome_some, Bool.true_and]
  have hst := deepEqualOptional_iff hs ht key
  have hsb := deepEqualOptional_iff hs hb key
  have htb := deepEqualOptional_iff ht hb key
  constructor
  · intro h hdiffer
    rw [if_neg fun heq => hdiffer.ne (hst.mp heq), if_neg fun heq => hdiffer.ours_ne (hsb.mp heq),
      if_neg fun heq => hdiffer.theirs_ne (htb.mp heq)] at h
    simp at h
  · intro h
    by_cases heq : src.slotReading key = tgt.slotReading key
    · rw [if_pos (hst.mpr heq)]
    rw [if_neg fun h => heq (hst.mp h)]
    by_cases hsrc : src.slotReading key = base.slotReading key
    · rw [if_pos (hsb.mpr hsrc)]
    rw [if_neg fun h => hsrc (hsb.mp h)]
    by_cases htgt : tgt.slotReading key = base.slotReading key
    · rw [if_pos (htb.mpr htgt)]
    · exact absurd ⟨hsrc, htgt, heq⟩ h

/-- Three ordinary nodes have no slot in conflict exactly when none reads pairwise
differently. -/
theorem findSlotConflicts_eq_nil_iff {base src tgt : Frame} (hb : base.Ordinary)
    (hs : src.Ordinary) (ht : tgt.Ordinary) :
    findSlotConflicts (some base) (some src) (some tgt) = [] ↔
      ∀ key, ¬ Differ id (base.slotReading key) (src.slotReading key) (tgt.slotReading key) := by
  have hnames : ∀ key ∈ distinct (slotNames (some base) ++ slotNames (some src) ++
      slotNames (some tgt)), key ∉ inheritedNames := by
    intro key hkey
    simp only [slotNames, mem_distinct, List.mem_append] at hkey
    rcases hkey with (hkey | hkey) | hkey
    · exact hb.name hkey
    · exact hs.name hkey
    · exact ht.name hkey
  unfold findSlotConflicts
  rw [List.filterMap_eq_nil_iff]
  constructor
  · intro h key hdiffer
    by_cases hkey : key ∈ distinct (slotNames (some base) ++ slotNames (some src) ++
        slotNames (some tgt))
    · exact (slotConflict_eq_none_iff hb hs ht (hnames key hkey)).mp (h key hkey) hdiffer
    · simp only [slotNames, mem_distinct, List.mem_append, Record.mem_keys, not_or,
        Bool.not_eq_true, Record.has_eq_false] at hkey
      refine hdiffer.ne ?_
      simp [Frame.slotReading, hkey.1.2, hkey.2]
  · exact fun h key hkey => (slotConflict_eq_none_iff hb hs ht (hnames key hkey)).mpr (h key)

/-- Two nodes that compare equal differ from a third alike. -/
theorem not_differ_of_eq {base src tgt : Option Doc} (h : src = tgt ∨ src = base ∨ tgt = base) :
    ¬ Differ id base src tgt := by
  intro hdiffer
  rcases h with h | h | h
  · exact hdiffer.ne h
  · exact hdiffer.ours_ne h
  · exact hdiffer.theirs_ne h

/-- A path on all three sides is kept by itself exactly when no slot of its ordinary
nodes reads pairwise differently. -/
theorem classify_eq_autoKept_iff {base src tgt : Frame} (hb : base.Ordinary)
    (hs : src.Ordinary) (ht : tgt.Ordinary) (hsrc : src.type = base.type)
    (htgt : tgt.type = base.type) :
    classify (some base) (some src) (some tgt) = .autoKept ↔
      ∀ key, ¬ Differ id (base.slotReading key) (src.slotReading key) (tgt.slotReading key) := by
  have hconflicts := findSlotConflicts_eq_nil_iff hb hs ht
  rw [classify]
  by_cases hst : framesEqual src tgt = true
  · rw [if_pos hst, eq_self, true_iff]
    have heq := (framesEqual_iff hs ht (hsrc.trans htgt.symm)).mp hst
    exact fun key => not_differ_of_eq (.inl (heq key))
  rw [if_neg hst]
  by_cases hone : (framesEqual base src || framesEqual base tgt) = true
  · rw [if_pos hone, eq_self, true_iff]
    rcases Bool.or_eq_true_iff.mp hone with h | h
    · have heq := (framesEqual_iff hb hs hsrc.symm).mp h
      exact fun key => not_differ_of_eq (.inr (.inl (heq key).symm))
    · have heq := (framesEqual_iff hb ht htgt.symm).mp h
      exact fun key => not_differ_of_eq (.inr (.inr (heq key).symm))
  rw [if_neg hone, ← hconflicts]
  cases hfound : findSlotConflicts (some base) (some src) (some tgt) with
  | nil => simp [hsrc]
  | cons c cs => simp

/-- The node picked for a path that all three sides keep: its slots follow the side
that changed them. -/
theorem pickAutoKept_follows {base src tgt : Frame} (hb : base.Ordinary) (hs : src.Ordinary)
    (ht : tgt.Ordinary) (hsrc : src.type = base.type) (htgt : tgt.type = base.type)
    (hid : src.id = tgt.id) :
    ∃ f, pickAutoKept (some base) (some src) (some tgt) = some f ∧ f.id = src.id ∧
      f.type = src.type ∧ ∀ key, Follows id (base.slotReading key) (src.slotReading key)
        (tgt.slotReading key) (f.slotReading key) := by
  rw [pickAutoKept]
  by_cases hst : framesEqual src tgt = true
  · refine ⟨src, by rw [if_pos hst], rfl, rfl, fun key => ?_⟩
    have heq := (framesEqual_iff hs ht (hsrc.trans htgt.symm)).mp hst key
    exact ⟨fun _ => rfl, fun _ => heq, fun _ => rfl⟩
  rw [if_neg hst]
  cases hbs : framesEqual base src with
  | false =>
    cases hbt : framesEqual base tgt with
    | true =>
      refine ⟨src, by simp, rfl, rfl, fun key => ?_⟩
      have heq := (framesEqual_iff hb ht htgt.symm).mp hbt key
      exact ⟨fun _ => rfl, fun h => h.trans heq, fun _ => rfl⟩
    | false =>
      refine ⟨mergeNonConflicting base src tgt, by simp, rfl, by simp [mergeNonConflicting, htgt],
        mergeNonConflicting_follows hb hs ht⟩
  | true =>
    have heq := (framesEqual_iff hb hs hsrc.symm).mp hbs
    cases hbt : framesEqual base tgt with
    | false =>
      refine ⟨tgt, by simp, hid.symm, htgt.trans hsrc.symm, fun key => ?_⟩
      exact ⟨fun h => h.trans (heq key), fun _ => rfl, fun h => h.symm⟩
    | true =>
      have heq' := (framesEqual_iff hb ht htgt.symm).mp hbt
      exact absurd ((framesEqual_iff hs ht (hsrc.trans htgt.symm)).mpr fun key =>
        (heq key).symm.trans (heq' key)) hst

end T3x.Semantic
