import T3x.Reconciliation.Reconcile

/-!
# The laws of reconciliation

Where the merge reports a conflict is described by locations alone: three
pairwise different values that are not all mappings, below mappings only. From
it follow the symmetry of the merge in the two sides and that no update is
lost.
-/

namespace T3x.Reconciliation

open Js ThreeWay

/-- The three values at a location conflict: they are pairwise different and not
all mappings, while everything above them is a mapping on all three sides. -/
def ConflictAt : Location → Option JsValue → Option JsValue → Option JsValue → Prop
  | [], before, ours, theirs =>
    Differ (reading id) before ours theirs ∧
      ¬ (isObj before = true ∧ isObj ours = true ∧ isObj theirs = true)
  | key :: loc, before, ours, theirs =>
    Differ (reading id) before ours theirs ∧
      (isObj before = true ∧ isObj ours = true ∧ isObj theirs = true) ∧
      ConflictAt loc (member before key) (member ours key) (member theirs key)

/-- The pointer of a location. -/
def pointer (loc : Location) : JsString := loc.flatMap fun key => unit '/' :: escapeKey key

/-- The path that is reported for a conflict whose pointer is given. -/
def reportedPath (path : JsString) : JsString := if path = [] then js "/" else path

/-- The path that is reported for a conflict at a location. -/
def conflictPath (loc : Location) : JsString := reportedPath (pointer loc)

variable {before ours theirs : Option JsValue}

/-- A conflict at a location is one for both orders of the sides. -/
theorem ConflictAt.swap {loc : Location} (h : ConflictAt loc before ours theirs) :
    ConflictAt loc before theirs ours := by
  induction loc generalizing before ours theirs with
  | nil => exact ⟨h.1.swap, fun hobj => h.2 ⟨hobj.1, hobj.2.2, hobj.2.1⟩⟩
  | cons key loc ih =>
    obtain ⟨hdiffer, ⟨hb, ho, ht⟩, hrest⟩ := h
    exact ⟨hdiffer.swap, ⟨hb, ht, ho⟩, ih hrest⟩

/-- A settled value has no conflict in it. -/
theorem not_conflictAt_of_settle {value : Option JsValue}
    (h : settle isDeepStrictEqual before ours theirs = some value) (loc : Location) :
    ¬ ConflictAt loc before ours theirs := by
  intro hconflict
  have hdiffer : Differ (reading id) before ours theirs := by
    cases loc with
    | nil => exact hconflict.1
    | cons key loc => exact hconflict.1
  rw [(settle_eq_none_iff isDeepStrictEqual_iff).mpr hdiffer] at h
  simp at h

/-- Below a conflict there is no other. -/
theorem ConflictAt.eq_of_prefix {loc loc' : Location} (h : ConflictAt loc before ours theirs)
    (h' : ConflictAt loc' before ours theirs) (hpre : loc <+: loc') : loc = loc' := by
  induction loc generalizing loc' before ours theirs with
  | nil =>
    cases loc' with
    | nil => rfl
    | cons key loc' => exact absurd h'.2.1 h.2
  | cons key loc ih =>
    obtain ⟨rest, rfl⟩ := hpre
    rw [List.cons_append] at h' ⊢
    rw [← ih h.2.2 h'.2.2 (List.prefix_append loc rest)]

/-- The merge reports the conflicts, each once. -/
theorem merge_conflicts (before ours theirs : Option JsValue) (path : JsString) :
    ∃ locs : List Location, locs.Nodup ∧ (∀ loc, loc ∈ locs ↔ ConflictAt loc before ours theirs) ∧
      (merge before ours theirs path).conflicts =
        locs.map fun loc => reportedPath (path ++ pointer loc) := by
  induction before using member_induct generalizing ours theirs path with
  | step before ih =>
    rcases merge_cases before ours theirs path with ⟨value, hsettle, hmerge⟩ |
      ⟨hdiffer, b, o, t, rfl, rfl, rfl, hmerge⟩ | ⟨hdiffer, hobj, hmerge⟩
    · refine ⟨[], List.nodup_nil, fun loc => ?_, by rw [hmerge]; rfl⟩
      simp [not_conflictAt_of_settle hsettle loc]
    · -- The conflicts of a mapping are those of its members, member by member.
      choose locs hnodup hmem hconflicts using fun key =>
        ih b rfl key (Record.get o key) (Record.get t key) (childPath path key)
      refine ⟨(unionKeys (Record.keys b) (Record.keys o) (Record.keys t)).flatMap
        fun key => (locs key).map (key :: ·), ?_, ?_, ?_⟩
      · refine List.nodup_flatMap.mpr ⟨fun key _ => ?_, ?_⟩
        · exact (hnodup key).map fun _ _ h => (List.cons.inj h).2
        · refine List.Pairwise.imp ?_ (unionKeys_nodup _ _ _)
          intro key key' hne
          simp only [Function.onFun, List.disjoint_left, List.mem_map]
          rintro _ ⟨loc, -, rfl⟩ ⟨loc', -, hcons⟩
          exact hne (List.cons.inj hcons).1.symm
      · intro loc
        simp only [List.mem_flatMap, List.mem_map]
        constructor
        · rintro ⟨key, -, rest, hrest, rfl⟩
          exact ⟨hdiffer, ⟨rfl, rfl, rfl⟩, (hmem key rest).mp hrest⟩
        · intro hconflict
          cases loc with
          | nil => exact absurd ⟨rfl, rfl, rfl⟩ hconflict.2
          | cons key rest =>
            have hrest := (hmem key rest).mpr hconflict.2.2
            refine ⟨key, ?_, rest, hrest, rfl⟩
            by_contra hkey
            rw [mem_unionKeys] at hkey
            simp only [not_or, Bool.not_eq_true, Record.has_eq_false] at hkey
            have hleaf := hconflict.2.2
            rw [member_obj, member_obj, member_obj, hkey.1, hkey.2.1, hkey.2.2] at hleaf
            exact @not_conflictAt_of_settle _ _ _ none rfl rest hleaf
      · rw [hmerge]
        simp only [collect, memberParts, List.flatMap_map, hconflicts, List.map_flatMap,
          List.map_map]
        refine List.flatMap_congr fun key _ => List.map_congr_left fun loc _ => ?_
        simp [pointer, childPath]
    · refine ⟨[[]], List.nodup_singleton _, fun loc => ?_, ?_⟩
      · cases loc with
        | nil => exact iff_of_true (List.mem_singleton.mpr rfl) ⟨hdiffer, hobj⟩
        | cons key loc => exact iff_of_false (by simp) fun h => hobj h.2.1
      · rw [hmerge]
        simp [unmerged, reportedPath, pointer]

/-- A path is reported exactly when it is the path of a conflict. -/
theorem mem_conflicts_iff {path p : JsString} :
    p ∈ (merge before ours theirs path).conflicts ↔
      ∃ loc, ConflictAt loc before ours theirs ∧ p = reportedPath (path ++ pointer loc) := by
  obtain ⟨locs, -, hmem, hconflicts⟩ := merge_conflicts before ours theirs path
  rw [hconflicts, List.mem_map]
  simp only [hmem, eq_comm]

/-- Above a conflict the merged document has mappings. -/
theorem isObj_merge_above {loc anc : Location} (h : ConflictAt loc before ours theirs)
    (hpre : anc <+: loc) (hne : anc ≠ loc) (path : JsString) :
    isObj (valueAt (merge before ours theirs path).value anc) = true := by
  induction loc generalizing anc before ours theirs path with
  | nil => exact absurd (List.prefix_nil.mp hpre) hne
  | cons key loc ih =>
    obtain ⟨hdiffer, hobj, hrest⟩ := h
    rcases merge_cases before ours theirs path with ⟨value, hsettle, -⟩ |
      ⟨-, b, o, t, rfl, rfl, rfl, hmerge⟩ | ⟨-, hnot, -⟩
    · rw [(settle_eq_none_iff isDeepStrictEqual_iff).mpr hdiffer] at hsettle
      simp at hsettle
    · rw [hmerge]
      cases anc with
      | nil => rfl
      | cons key' anc =>
        obtain ⟨rfl, hpre'⟩ := List.cons_prefix_cons.mp hpre
        rw [valueAt_cons, member_collect]
        exact ih hrest hpre' (fun heq => hne (by rw [heq])) _
    · exact absurd hobj hnot

/-- Without a conflict the merge is symmetric in the two sides. -/
theorem merge_swap (before ours theirs : Option JsValue) (path : JsString)
    (h : (merge before ours theirs path).conflicts = []) :
    reading id (merge before theirs ours path).value =
      reading id (merge before ours theirs path).value := by
  induction before using member_induct generalizing ours theirs path with
  | step before ih =>
    rcases merge_cases before ours theirs path with ⟨value, hsettle, hmerge⟩ |
      ⟨hdiffer, b, o, t, rfl, rfl, rfl, hmerge⟩ | ⟨-, -, hmerge⟩
    · obtain ⟨value', hsettle', hvalue⟩ := settle_swap isDeepStrictEqual_iff hsettle
      rw [hmerge, merge_eq, hsettle']
      exact hvalue
    · rcases merge_cases (some (.obj b)) (some (.obj t)) (some (.obj o)) path with
        ⟨value, hsettle, -⟩ | ⟨-, b', t', o', hb, ht, ho, hswap⟩ | ⟨-, hobj, -⟩
      · have hnone := (settle_eq_none_iff isDeepStrictEqual_iff).mpr hdiffer.swap
        rw [hsettle] at hnone
        simp at hnone
      · obtain rfl : b = b' := by simpa using hb
        obtain rfl : t = t' := by simpa using ht
        obtain rfl : o = o' := by simpa using ho
        rw [hmerge] at h ⊢
        rw [hswap]
        refine reading_obj fun key => ?_
        have hmember := member_collect b t o path key
        have hmember' := member_collect b o t path key
        simp only [collect, member_obj] at hmember hmember' ⊢
        rw [hmember, hmember']
        apply ih b rfl key
        -- A conflict in the member would be one of the mapping.
        by_contra hne
        obtain ⟨p, hp⟩ := List.exists_mem_of_ne_nil _ hne
        by_cases hkey : key ∈ unionKeys (Record.keys b) (Record.keys o) (Record.keys t)
        · have hmem : p ∈ (collect (memberParts b o t path)).conflicts :=
            List.mem_flatMap.mpr ⟨_, List.mem_map.mpr ⟨key, hkey, rfl⟩, hp⟩
          rw [h] at hmem
          simp at hmem
        · rw [mem_unionKeys] at hkey
          simp only [not_or, Bool.not_eq_true, Record.has_eq_false] at hkey
          rw [hkey.1, hkey.2.1, hkey.2.2, merge_none] at hp
          simp at hp
      · exact absurd ⟨rfl, rfl, rfl⟩ hobj
    · rw [hmerge] at h
      simp [unmerged] at h

/-- Where their side is unchanged the merge has what our side has. -/
theorem merge_keeps_ours (path : JsString) (loc : Location)
    (h : reading id (valueAt theirs loc) = reading id (valueAt before loc)) :
    reading id (valueAt (merge before ours theirs path).value loc) =
      reading id (valueAt ours loc) := by
  induction loc generalizing before ours theirs path with
  | nil =>
    rcases merge_cases before ours theirs path with ⟨value, hsettle, hmerge⟩ |
      ⟨hdiffer, -⟩ | ⟨hdiffer, -⟩
    · rw [hmerge]
      exact read_settle_of_theirs isDeepStrictEqual_iff hsettle h
    · exact absurd h hdiffer.theirs_ne
    · exact absurd h hdiffer.theirs_ne
  | cons key loc ih =>
    rcases merge_cases before ours theirs path with ⟨value, hsettle, hmerge⟩ |
      ⟨-, b, o, t, rfl, rfl, rfl, hmerge⟩ | ⟨-, -, hmerge⟩
    · rw [hmerge]
      rcases settle_cases isDeepStrictEqual_iff hsettle with ⟨ho, rfl⟩ | ⟨-, rfl⟩ | ⟨-, rfl⟩
      · rw [h]
        exact (reading_valueAt ho _).symm
      · rfl
      · rfl
    · rw [hmerge, valueAt_cons, member_collect]
      exact ih _ h
    · rw [hmerge]
      rfl

/-- Where our side is unchanged the merge has what their side has, except below
a conflict. -/
theorem merge_keeps_theirs (path : JsString) (loc : Location)
    (h : reading id (valueAt ours loc) = reading id (valueAt before loc)) :
    reading id (valueAt (merge before ours theirs path).value loc) =
        reading id (valueAt theirs loc) ∨
      ∃ anc, anc <+: loc ∧ anc ≠ loc ∧ ConflictAt anc before ours theirs := by
  induction loc generalizing before ours theirs path with
  | nil =>
    rcases merge_cases before ours theirs path with ⟨value, hsettle, hmerge⟩ |
      ⟨hdiffer, -⟩ | ⟨hdiffer, -⟩
    · rw [hmerge]
      exact .inl (read_settle_of_ours isDeepStrictEqual_iff hsettle h)
    · exact absurd h hdiffer.ours_ne
    · exact absurd h hdiffer.ours_ne
  | cons key loc ih =>
    rcases merge_cases before ours theirs path with ⟨value, hsettle, hmerge⟩ |
      ⟨hdiffer, b, o, t, rfl, rfl, rfl, hmerge⟩ | ⟨hdiffer, hobj, hmerge⟩
    · rw [hmerge]
      rcases settle_cases isDeepStrictEqual_iff hsettle with ⟨-, rfl⟩ | ⟨ht, rfl⟩ | ⟨heq, rfl⟩
      · exact .inl rfl
      · exact .inl (h.trans (reading_valueAt ht _).symm)
      · exact .inl (reading_valueAt heq _)
    · rw [hmerge, valueAt_cons, member_collect]
      rcases ih (childPath path key) h with hkept | ⟨anc, hpre, hne, hconflict⟩
      · exact .inl hkept
      · refine .inr ⟨key :: anc, (List.prefix_cons_inj key).mpr hpre, ?_, hdiffer,
          ⟨rfl, rfl, rfl⟩, hconflict⟩
        exact fun heq => hne (List.cons.inj heq).2
    · exact .inr ⟨[], List.nil_prefix, by simp, hdiffer, hobj⟩

/-- Three pairwise different values that are not all mappings stand at or below
a conflict. -/
theorem conflictAt_of_differ (loc : Location)
    (h : Differ (reading id) (valueAt before loc) (valueAt ours loc) (valueAt theirs loc))
    (hobj : ¬ (isObj (valueAt before loc) = true ∧ isObj (valueAt ours loc) = true ∧
      isObj (valueAt theirs loc) = true)) :
    ∃ anc, anc <+: loc ∧ ConflictAt anc before ours theirs := by
  induction loc generalizing before ours theirs with
  | nil => exact ⟨[], List.nil_prefix, h, hobj⟩
  | cons key loc ih =>
    have hdiffer : Differ (reading id) before ours theirs :=
      ⟨fun heq => h.ours_ne (reading_valueAt heq (key :: loc)),
        fun heq => h.theirs_ne (reading_valueAt heq (key :: loc)),
        fun heq => h.ne (reading_valueAt heq (key :: loc))⟩
    by_cases hall : isObj before = true ∧ isObj ours = true ∧ isObj theirs = true
    · obtain ⟨anc, hpre, hconflict⟩ := ih h hobj
      exact ⟨key :: anc, (List.prefix_cons_inj key).mpr hpre, hdiffer, hall, hconflict⟩
    · exact ⟨[], List.nil_prefix, hdiffer, hall⟩

/-! ## The three-way laws of `reconcileDocuments` -/

/-- The three-way laws of a reconciliation. -/
structure ThreeWayLaws (base ours theirs : JsValue) : Prop where
  /-- Their document stands when ours is the base. -/
  ours_unchanged : JsValue.denote id ours = JsValue.denote id base →
    reconcileDocuments base ours theirs = ⟨some theirs, []⟩
  /-- Our document stands when theirs is the base. -/
  theirs_unchanged : JsValue.denote id theirs = JsValue.denote id base →
    reading id (reconcileDocuments base ours theirs).current = reading id (some ours) ∧
      (reconcileDocuments base ours theirs).conflicts = []
  /-- The reported paths are the paths of the conflicts. -/
  reported : ∀ path, path ∈ (reconcileDocuments base ours theirs).conflicts ↔
    ∃ loc, ConflictAt loc (some base) (some ours) (some theirs) ∧ path = conflictPath loc
  /-- Exchanging the sides reports the same paths. -/
  swap_conflicts : ∀ path, path ∈ (reconcileDocuments base ours theirs).conflicts ↔
    path ∈ (reconcileDocuments base theirs ours).conflicts
  /-- Exchanging the sides merges to the same document when nothing conflicts. -/
  swap_current : (reconcileDocuments base ours theirs).conflicts = [] →
    reading id (reconcileDocuments base theirs ours).current =
      reading id (reconcileDocuments base ours theirs).current
  /-- What their side left unchanged is as our side has it. -/
  ours_kept : ∀ loc,
    reading id (valueAt (some theirs) loc) = reading id (valueAt (some base) loc) →
    reading id (valueAt (reconcileDocuments base ours theirs).current loc) =
      reading id (valueAt (some ours) loc)
  /-- What our side left unchanged is as their side has it, unless a conflict is
  reported above it. -/
  theirs_kept : ∀ loc,
    reading id (valueAt (some ours) loc) = reading id (valueAt (some base) loc) →
    reading id (valueAt (reconcileDocuments base ours theirs).current loc) =
        reading id (valueAt (some theirs) loc) ∨
      ∃ anc, anc <+: loc ∧ anc ≠ loc ∧ ConflictAt anc (some base) (some ours) (some theirs)
  /-- Values changed differently on both sides, not all of them mappings, stand
  at or below a conflict. -/
  clash_covered : ∀ loc,
    Differ (reading id) (valueAt (some base) loc) (valueAt (some ours) loc)
      (valueAt (some theirs) loc) →
    ¬ (isObj (valueAt (some base) loc) = true ∧ isObj (valueAt (some ours) loc) = true ∧
      isObj (valueAt (some theirs) loc) = true) →
    ∃ anc, anc <+: loc ∧ ConflictAt anc (some base) (some ours) (some theirs)

end T3x.Reconciliation
