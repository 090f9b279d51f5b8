import T3x.SchemaMerge.Own

/-!
# The laws of the merge of definitions

Where the merge reports conflicts is described by locations alone, the same for
both orders of the sides. Away from conflicts the merge follows the side that
changed, and choosing one side everywhere is choosing the other of the exchanged
sides. The merge returns exactly when it reads no inherited member.
-/

namespace T3x.SchemaMerge

open Js T3x.Transition ThreeWay

variable {choices choices' : Record Choice} {before incoming current value : Option JsValue}

/-! ## Settled values -/

/-- Exchanging the sides of a value that is settled. -/
theorem Settled.follows (h : Settled before incoming current value) :
    Follows form before incoming current value := by
  rcases h with ⟨heq, rfl⟩ | ⟨heq, rfl⟩ | ⟨heq, rfl⟩
  · exact ⟨fun _ => rfl, fun _ => heq, fun _ => rfl⟩
  · exact ⟨fun h => h.trans heq.symm, fun _ => rfl, fun h => h.symm⟩
  · exact ⟨fun _ => rfl, fun h => h.trans heq.symm, fun _ => rfl⟩

/-- A settled value is settled at every location. -/
theorem Settled.valueAt (h : Settled before incoming current value) (loc : Location) :
    Settled (valueAt before loc) (valueAt incoming loc) (valueAt current loc)
      (valueAt value loc) := by
  rcases h with ⟨heq, rfl⟩ | ⟨heq, rfl⟩ | ⟨heq, rfl⟩
  · exact .inl ⟨reading_valueAt heq loc, rfl⟩
  · exact .inr (.inl ⟨reading_valueAt heq loc, rfl⟩)
  · exact .inr (.inr ⟨reading_valueAt heq loc, rfl⟩)

/-- What is settled is not pairwise different. -/
theorem Settled.not_differ (h : Settled before incoming current value) :
    ¬ Differ form before incoming current := by
  rintro ⟨hi, hc, hne⟩
  rcases h with ⟨heq, -⟩ | ⟨heq, -⟩ | ⟨heq, -⟩
  · exact hne heq
  · exact hi heq
  · exact hc heq

/-- Exchanging the sides that descend. -/
theorem Descendable.swap (h : Descendable before incoming current) :
    Descendable before current incoming := ⟨h.1, h.2.2, h.2.1⟩

/-! ## Conflicts -/

/-- The three values at a location conflict: they are pairwise different and the merge does
not descend there, but at all places above. -/
def ConflictAt : Location → Option JsValue → Option JsValue → Option JsValue → Prop
  | [], before, incoming, current =>
    Differ form before incoming current ∧ ¬ Descendable before incoming current
  | key :: loc, before, incoming, current =>
    (Differ form before incoming current ∧ Descendable before incoming current) ∧
      ConflictAt loc (member before key) (member incoming key) (member current key)

/-- The path of a location below a path. -/
def pathOf (path : JsString) (loc : Location) : JsString := loc.foldl childPath path

/-- A conflict at a location is one for both orders of the sides. -/
theorem ConflictAt.swap {loc : Location} (h : ConflictAt loc before incoming current) :
    ConflictAt loc before current incoming := by
  induction loc generalizing before incoming current with
  | nil => exact ⟨h.1.swap, fun hdescend => h.2 hdescend.swap⟩
  | cons key loc ih => exact ⟨⟨h.1.1.swap, h.1.2.swap⟩, ih h.2⟩

/-- At a conflict and above it the values are pairwise different. -/
theorem ConflictAt.differ {loc : Location} (h : ConflictAt loc before incoming current) :
    Differ form before incoming current := by
  cases loc with
  | nil => exact h.1
  | cons key loc => exact h.1.1

/-- The parts of a merge that descends, in order. -/
theorem paths_collect (part : JsString → Merged) (f : Merged → List JsString)
    (hcollect : ∀ parts, f (collect parts) = parts.flatMap fun p => f p.2) {p : JsString} :
    p ∈ f (collect (partsOf before incoming current part)) ↔
      ∃ key ∈ memberKeys before incoming current, p ∈ f (part key) := by
  rw [hcollect, partsOf, List.flatMap_map, List.mem_flatMap]

/-- A part of a merge that descends reports what the merge does. -/
theorem path_of_part {path : JsString} {part : JsString → Merged}
    (hpart : ∀ key, mergeAt choices (member before key) (member incoming key) (member current key)
      (childPath path key) = .ok (part key)) (key : JsString) {p : JsString}
    (hp : p ∈ (part key).conflicts.map SchemaMergeConflict.path) :
    p ∈ (collect (partsOf before incoming current part)).conflicts.map SchemaMergeConflict.path := by
  rw [paths_collect part (fun m => m.conflicts.map SchemaMergeConflict.path) fun parts => by
    simp [collect, List.map_flatMap]]
  refine ⟨key, ?_, hp⟩
  by_contra hkey
  simp only [mem_memberKeys, not_or, Option.not_isSome_iff_eq_none] at hkey
  have hnone := hpart key
  rw [hkey.1, hkey.2.1, hkey.2.2, mergeAt_none] at hnone
  rw [← Except.ok.inj hnone] at hp
  exact List.not_mem_nil hp

/-- A conflict is reported at its path. -/
theorem paths_conflict (path : JsString) :
    (conflict choices before incoming current path).conflicts.map SchemaMergeConflict.path =
      [reportedPath path] := by
  unfold conflict
  dsimp only
  split <;> rfl

/-- The value of a conflict with a choice. -/
theorem value_conflict {path : JsString} {choice : Choice}
    (h : Record.get choices (reportedPath path) = some choice) :
    (conflict choices before incoming current path).value = choice.pick incoming current := by
  unfold conflict
  dsimp only
  rw [h]

/-- The paths that are reported are the paths of the conflicts. -/
theorem mem_conflicts_iff {path : JsString} {merged : Merged}
    (h : mergeAt choices before incoming current path = .ok merged) {p : JsString} :
    p ∈ merged.conflicts.map SchemaMergeConflict.path ↔
      ∃ loc, ConflictAt loc before incoming current ∧ p = reportedPath (pathOf path loc) := by
  induction incoming using member_induct generalizing before current path merged with
  | step incoming ih =>
    obtain ⟨-, ⟨value, hsettled, rfl⟩ | ⟨hdiffer, hdescend, -, part, hpart, rfl⟩ |
      ⟨hdiffer, hnot, rfl⟩⟩ := mergeAt_cases h
    · simp only [List.map_nil, List.not_mem_nil, false_iff, not_exists, not_and]
      exact fun loc hconflict => absurd hconflict.differ hsettled.not_differ
    · obtain ⟨members, rfl⟩ := isObj_iff.mp hdescend.2.1
      rw [paths_collect part (fun m => m.conflicts.map SchemaMergeConflict.path) fun parts => by
        simp [collect, List.map_flatMap]]
      constructor
      · rintro ⟨key, -, hp⟩
        obtain ⟨loc, hconflict, rfl⟩ := (ih members rfl key (hpart key)).mp hp
        exact ⟨key :: loc, ⟨⟨hdiffer, hdescend⟩, hconflict⟩, rfl⟩
      · rintro ⟨loc, hconflict, rfl⟩
        cases loc with
        | nil => exact absurd hdescend hconflict.2
        | cons key loc =>
          refine ⟨key, ?_, (ih members rfl key (hpart key)).mpr ⟨loc, hconflict.2, rfl⟩⟩
          by_contra hkey
          simp only [mem_memberKeys, not_or, Option.not_isSome_iff_eq_none] at hkey
          have hdiffer' := hconflict.2.differ
          rw [hkey.1, hkey.2.1, hkey.2.2] at hdiffer'
          exact hdiffer'.ne rfl
    · rw [paths_conflict, List.mem_singleton]
      constructor
      · rintro rfl
        exact ⟨[], ⟨hdiffer, hnot⟩, rfl⟩
      · rintro ⟨loc, hconflict, rfl⟩
        cases loc with
        | nil => rfl
        | cons key loc => exact absurd hconflict.1.2 hnot

/-- A path is unresolved exactly when a conflict is reported at it and there is no choice for
it, and a choice is used exactly when a conflict is reported at its path. -/
theorem mem_unresolved_iff {path : JsString} {merged : Merged}
    (h : mergeAt choices before incoming current path = .ok merged) {p : JsString} :
    (p ∈ merged.unresolved ↔ p ∈ merged.conflicts.map SchemaMergeConflict.path ∧
      Record.get choices p = none) ∧
    (p ∈ merged.used ↔ p ∈ merged.conflicts.map SchemaMergeConflict.path ∧
      (Record.get choices p).isSome = true) := by
  induction incoming using member_induct generalizing before current path merged with
  | step incoming ih =>
    obtain ⟨-, ⟨value, -, rfl⟩ | ⟨-, hdescend, -, part, hpart, rfl⟩ | ⟨-, -, rfl⟩⟩ :=
      mergeAt_cases h
    · simp
    · obtain ⟨members, rfl⟩ := isObj_iff.mp hdescend.2.1
      rw [paths_collect part (fun m => m.conflicts.map SchemaMergeConflict.path) fun parts => by
        simp [collect, List.map_flatMap], paths_collect part Merged.unresolved fun parts => rfl,
        paths_collect part Merged.used fun parts => rfl]
      simp only [fun key => (ih members rfl key (hpart key)).1,
        fun key => (ih members rfl key (hpart key)).2, ← exists_and_right, and_assoc, and_self]
    · unfold conflict
      dsimp only
      split <;> simp_all

/-! ## Merged values -/

/-- The member of a merged mapping is the merge of the members. -/
theorem member_collect {path : JsString} {part : JsString → Merged}
    (hpart : ∀ key, mergeAt choices (member before key) (member incoming key) (member current key)
      (childPath path key) = .ok (part key)) (key : JsString) :
    member (collect (partsOf before incoming current part)).value key = (part key).value := by
  have hnodup : (memberKeys before incoming current).Nodup :=
    Reconciliation.unionKeys_nodup _ _ _
  have hparts : (partsOf before incoming current part).filterMap (fun p =>
      p.2.value.map fun value => (p.1, value)) = (memberKeys before incoming current).filterMap
        fun key => (part key).value.map fun value => (key, value) := by
    rw [partsOf, List.filterMap_map]
    rfl
  rw [collect, member_obj, hparts, Record.get_collected hnodup]
  split_ifs with hkey
  · rfl
  · simp only [mem_memberKeys, not_or, Option.not_isSome_iff_eq_none] at hkey
    have hnone := hpart key
    rw [hkey.1, hkey.2.1, hkey.2.2, mergeAt_none] at hnone
    rw [← Except.ok.inj hnone]

/-- Away from conflicts the merged value follows the side that changed. -/
theorem follows_of_not_conflict {path : JsString} {merged : Merged}
    (h : mergeAt choices before incoming current path = .ok merged) (loc : Location)
    (hnot : ∀ anc, anc <+: loc → ¬ ConflictAt anc before incoming current) :
    Follows form (valueAt before loc) (valueAt incoming loc) (valueAt current loc)
      (valueAt merged.value loc) := by
  induction loc generalizing before incoming current path merged with
  | nil =>
    obtain ⟨-, ⟨value, hsettled, rfl⟩ | ⟨hdiffer, -⟩ | ⟨hdiffer, hdescend, -⟩⟩ := mergeAt_cases h
    · exact hsettled.follows
    · exact ⟨fun heq => absurd heq hdiffer.theirs_ne, fun heq => absurd heq hdiffer.ours_ne,
        fun heq => absurd heq hdiffer.ne⟩
    · exact absurd ⟨hdiffer, hdescend⟩ (hnot [] List.nil_prefix)
  | cons key loc ih =>
    obtain ⟨-, ⟨value, hsettled, rfl⟩ | ⟨hdiffer, hdescend, -, part, hpart, rfl⟩ |
      ⟨hdiffer, hdescend, -⟩⟩ := mergeAt_cases h
    · exact (hsettled.valueAt (key :: loc)).follows
    · rw [valueAt_cons, valueAt_cons, valueAt_cons, valueAt_cons, member_collect hpart]
      refine ih (hpart key) fun anc hanc hconflict => ?_
      exact hnot (key :: anc) ((List.prefix_cons_inj key).mpr hanc) ⟨⟨hdiffer, hdescend⟩, hconflict⟩
    · exact absurd ⟨hdiffer, hdescend⟩ (hnot [] List.nil_prefix)

/-- Choosing the source for every conflict merges to what choosing the target does when the
sides are exchanged. -/
theorem form_choose {path : JsString} {merged merged' : Merged}
    (h : mergeAt choices before incoming current path = .ok merged)
    (h' : mergeAt choices' before current incoming path = .ok merged')
    (hsource : ∀ p ∈ merged.conflicts.map SchemaMergeConflict.path,
      Record.get choices p = some .source)
    (htarget : ∀ p ∈ merged'.conflicts.map SchemaMergeConflict.path,
      Record.get choices' p = some .target) : form merged.value = form merged'.value := by
  induction incoming using member_induct generalizing before current path merged merged' with
  | step incoming ih =>
    obtain ⟨-, ⟨value, hsettled, rfl⟩ | ⟨hdiffer, hdescend, -, part, hpart, rfl⟩ |
      ⟨hdiffer, hnot, rfl⟩⟩ := mergeAt_cases h <;>
    obtain ⟨-, ⟨value', hsettled', rfl⟩ | ⟨hdiffer', hdescend', -, part', hpart', rfl⟩ |
      ⟨hdiffer', hnot', rfl⟩⟩ := mergeAt_cases h'
    · exact hsettled.follows.unique hsettled'.follows.swap hsettled.not_differ
    · exact absurd hdiffer'.swap hsettled.not_differ
    · exact absurd hdiffer'.swap hsettled.not_differ
    · exact absurd hdiffer.swap hsettled'.not_differ
    · obtain ⟨members, rfl⟩ := isObj_iff.mp hdescend.2.1
      refine reading_obj fun key => ?_
      have hmember := member_collect hpart key
      have hmember' := member_collect hpart' key
      simp only [collect, member_obj] at hmember hmember'
      rw [hmember, hmember']
      exact ih members rfl key (hpart key) (hpart' key)
        (fun p hp => hsource p (path_of_part hpart key hp))
        (fun p hp => htarget p (path_of_part hpart' key hp))
    · exact absurd hdescend.swap hnot'
    · exact absurd hdiffer.swap hsettled'.not_differ
    · exact absurd hdescend'.swap hnot
    · rw [value_conflict (hsource _ (by rw [paths_conflict]; exact List.mem_singleton_self _)),
        value_conflict (htarget _ (by rw [paths_conflict]; exact List.mem_singleton_self _))]
      rfl

/-! ## When the merge returns -/

/-- The merge looks at a location: it descends at all places above. -/
def LooksAt : Location → Option JsValue → Option JsValue → Option JsValue → Prop
  | [], _, _, _ => True
  | key :: loc, before, incoming, current =>
    (Differ form before incoming current ∧ Descendable before incoming current) ∧
      LooksAt loc (member before key) (member incoming key) (member current key)

/-- Where the merge descends it reads own members alone: no name of `Object.prototype` that
one of the values has is missing on a side, or in the base where the sides differ. -/
def NothingInherited (before incoming current : Option JsValue) : Prop :=
  ∀ loc, LooksAt loc before incoming current →
    Differ form (valueAt before loc) (valueAt incoming loc) (valueAt current loc) →
    Descendable (valueAt before loc) (valueAt incoming loc) (valueAt current loc) →
    ∀ key, ReadsOwn (valueAt before loc) (valueAt incoming loc) (valueAt current loc) key

/-- Nothing inherited is read exactly when none is read at the first level and none below. -/
theorem nothingInherited_iff : NothingInherited before incoming current ↔
    (Differ form before incoming current → Descendable before incoming current →
      ∀ key, ReadsOwn before incoming current key ∧
        NothingInherited (member before key) (member incoming key) (member current key)) := by
  constructor
  · intro h hdiffer hdescend key
    exact ⟨h [] trivial hdiffer hdescend key,
      fun loc hlooks => h (key :: loc) ⟨⟨hdiffer, hdescend⟩, hlooks⟩⟩
  · intro h loc hlooks
    cases loc with
    | nil => exact fun hdiffer hdescend key => (h hdiffer hdescend key).1
    | cons key loc => exact (h hlooks.1.1 hlooks.1.2 key).2 loc hlooks.2

/-- The merge of values that can be compared returns exactly when it reads nothing inherited. -/
theorem exists_mergeAt_iff_nothingInherited {path : JsString}
    (hsound : Sound before incoming current) :
    (∃ merged, mergeAt choices before incoming current path = .ok merged) ↔
      NothingInherited before incoming current := by
  induction incoming using member_induct generalizing before current path with
  | step incoming ih =>
    rw [exists_mergeAt_iff, nothingInherited_iff, and_iff_right hsound]
    refine forall_congr' fun hdiffer => forall_congr' fun hdescend => forall_congr' fun key =>
      and_congr_right fun _ => ?_
    obtain ⟨members, rfl⟩ := isObj_iff.mp hdescend.2.1
    exact ih members rfl key (hsound.member hdiffer hdescend key)

end T3x.SchemaMerge
