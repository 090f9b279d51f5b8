import T3x.SchemaMerge.Laws

/-!
# The three-way laws of `mergeSchemaDefinitions`

The laws that the merge of definitions is to obey, and when it obeys them: exactly
if no member of `Object.prototype` is read in place of one that a mapping has not.
-/

namespace T3x.SchemaMerge

open Js T3x.Transition T3x.Yschema ThreeWay

variable {regExpError : JsString → Option JsString} {choices choices' : Record Choice}
  {base source target : Option YSchema} {before incoming current : Option JsValue}

/-! ## Results -/

/-- A definition as the value that is merged. -/
abbrev docOf (schema : Option YSchema) : Option JsValue := schema.map YSchema.toObject

/-- What the merge of definitions makes of a merge of their values. -/
theorem mergeSchemaDefinitions_of_merge {merged : Merged}
    (h : mergeAt choices (docOf base) (docOf source) (docOf target) [] = .ok merged) :
    mergeSchemaDefinitions regExpError base source target choices =
      match (Record.keys choices).find? fun key => !merged.used.contains key with
      | some key => .error (.unknownConflict key)
      | none => .ok (merged.schema regExpError) := by
  have hmerge : merge choices (readSchema base) (readSchema source) (readSchema target) [] =
      .ok merged := h
  unfold mergeSchemaDefinitions
  rw [hmerge]
  rfl

/-- What the merge of definitions makes of a merge of their values that throws. -/
theorem mergeSchemaDefinitions_of_error {e : ProtocolError}
    (h : mergeAt choices (docOf base) (docOf source) (docOf target) [] = .error e) :
    mergeSchemaDefinitions regExpError base source target choices = .error (.thrown e) := by
  have hmerge : merge choices (readSchema base) (readSchema source) (readSchema target) [] =
      .error e := h
  unfold mergeSchemaDefinitions
  rw [hmerge]
  rfl

/-- The merge of definitions returns what the merge of their values yields, if every choice
is for a conflict. -/
theorem mergeSchemaDefinitions_eq_ok_iff {result : MergedSchema} :
    mergeSchemaDefinitions regExpError base source target choices = .ok result ↔
      ∃ merged, mergeAt choices (docOf base) (docOf source) (docOf target) [] = .ok merged ∧
        (∀ key ∈ Record.keys choices, key ∈ merged.used) ∧ result = merged.schema regExpError := by
  cases h : mergeAt choices (docOf base) (docOf source) (docOf target) [] with
  | error e =>
    rw [mergeSchemaDefinitions_of_error h]
    simp
  | ok merged =>
    rw [mergeSchemaDefinitions_of_merge h]
    cases hfind : (Record.keys choices).find? fun key => !merged.used.contains key with
    | some key =>
      have hkey := List.mem_of_find?_eq_some hfind
      have hunused := List.find?_some hfind
      simp only [reduceCtorEq, false_iff, not_exists, not_and]
      rintro merged' hmerged hused -
      obtain rfl := Except.ok.inj hmerged
      simp [hused key hkey] at hunused
    | none =>
      simp only [List.find?_eq_none, Bool.not_eq_true, Bool.not_eq_false',
        List.contains_iff_mem] at hfind
      constructor
      · intro hok
        exact ⟨merged, rfl, hfind, (Except.ok.inj hok).symm⟩
      · rintro ⟨merged', hmerged, -, rfl⟩
        obtain rfl := Except.ok.inj hmerged
        rfl

/-- A path at which the sides of a merge conflict. -/
def IsConflictPath (base source target : Option YSchema) (p : JsString) : Prop :=
  ∃ loc, ConflictAt loc (docOf base) (docOf source) (docOf target) ∧
    p = reportedPath (pathOf [] loc)

/-- Exchanging the sides keeps the paths of the conflicts. -/
theorem IsConflictPath.swap {p : JsString} (h : IsConflictPath base source target p) :
    IsConflictPath base target source p := by
  obtain ⟨loc, hconflict, rfl⟩ := h
  exact ⟨loc, hconflict.swap, rfl⟩

/-- The paths that a result reports. -/
def MergedSchema.paths (result : MergedSchema) : List JsString :=
  result.conflicts.map SchemaMergeConflict.path

/-- A definition that reads back as itself. -/
def ReadsBack (regExpError : JsString → Option JsString) (schema : Option YSchema) : Prop :=
  readDefinition regExpError (docOf schema) = .ok schema

/-- The three-way laws of a merge of definitions. The merged definition is what is read from
the merged value; paths are those of conflicts, a location is a list of names. -/
structure ThreeWayLaws (regExpError : JsString → Option JsString)
    (base source target : Option YSchema) : Prop where
  /-- A source that is the base yields the target without conflicts. -/
  source_unchanged : form (docOf source) = form (docOf base) → ReadsBack regExpError source →
    ReadsBack regExpError target → ∃ definition, form (docOf definition) = form (docOf target) ∧
      mergeSchemaDefinitions regExpError base source target [] = .ok ⟨[], [], definition, none⟩
  /-- A target that is the base yields the source without conflicts. -/
  target_unchanged : form (docOf target) = form (docOf base) → ReadsBack regExpError source →
    ReadsBack regExpError target → ∃ definition, form (docOf definition) = form (docOf source) ∧
      mergeSchemaDefinitions regExpError base source target [] = .ok ⟨[], [], definition, none⟩
  /-- Exchanging the sides reports the same paths, whatever is chosen. -/
  swap_conflicts : ∀ choices result,
    mergeSchemaDefinitions regExpError base source target choices = .ok result →
    ∃ result', mergeSchemaDefinitions regExpError base target source [] = .ok result' ∧
      ∀ p, p ∈ result.paths ↔ p ∈ result'.paths
  /-- Away from conflicts the merged definition has at every location what the side that
  changed has, whatever is chosen. -/
  one_sided : ∀ choices result,
    mergeSchemaDefinitions regExpError base source target choices = .ok result →
    ∃ value, (result.unresolved = [] →
        result.definition = (readDefinition regExpError value).toOption.join) ∧
      ∀ loc, (∀ anc, anc <+: loc → ¬ ConflictAt anc (docOf base) (docOf source) (docOf target)) →
        Follows form (valueAt (docOf base) loc) (valueAt (docOf source) loc)
          (valueAt (docOf target) loc) (valueAt value loc)
  /-- Choosing the source for every conflict is choosing the target for every conflict of the
  exchanged sides. -/
  choose_side : ∀ choices choices' : Record Choice,
    (∀ p choice, Record.get choices p = some choice ↔
      IsConflictPath base source target p ∧ choice = .source) →
    (∀ p choice, Record.get choices' p = some choice ↔
      IsConflictPath base target source p ∧ choice = .target) →
    ∃ value value' result result', form value = form value' ∧
      mergeSchemaDefinitions regExpError base source target choices = .ok result ∧
      mergeSchemaDefinitions regExpError base target source choices' = .ok result' ∧
      result.definition = (readDefinition regExpError value).toOption.join ∧
      result'.definition = (readDefinition regExpError value').toOption.join
  /-- A conflict without a choice yields no definition. -/
  unresolved_null : ∀ choices result,
    mergeSchemaDefinitions regExpError base source target choices = .ok result →
    ∀ p, IsConflictPath base source target p → Record.get choices p = none →
      result.definition = none
  /-- The merge fails only for a choice at a path without a conflict. -/
  fails_only : ∀ choices e,
    mergeSchemaDefinitions regExpError base source target choices = .error e →
    ∃ key ∈ Record.keys choices, e = .unknownConflict key ∧
      ¬ IsConflictPath base source target key

/-! ## Sound sides -/

/-- Exchanging the sides of sound comparisons. -/
theorem Sound.swap (h : Sound before incoming current) : Sound before current incoming := by
  refine ⟨h.1.swap, fun hne => ?_⟩
  obtain ⟨hib, hcb⟩ := h.2 (Ne.symm hne)
  by_cases heq : form incoming = form before
  · refine ⟨fun v hv w hw => ?_, fun _ => hib⟩
    obtain rfl : before = some w := hw
    cases incoming with
    | none => simp [reading] at heq
    | some x => exact ⟨(h.1 x rfl v hv).2, (hib x rfl w rfl).2⟩
  · exact ⟨hcb heq, fun _ => hib⟩

/-- Exchanging the sides keeps what is read under a name. -/
theorem ReadsOwn.swap {key : JsString} (h : ReadsOwn before incoming current key) :
    ReadsOwn before current incoming key := by
  intro hname hkey
  have hkey' : key ∈ memberKeys before incoming current := by
    rw [mem_memberKeys] at hkey ⊢
    tauto
  obtain ⟨hi, hc, hb⟩ := h hname hkey'
  exact ⟨hc, hi, fun hobj hnone => (hb hobj hnone).symm⟩

/-- Exchanging the sides keeps where the merge looks. -/
theorem LooksAt.swap {loc : Location} (h : LooksAt loc before incoming current) :
    LooksAt loc before current incoming := by
  induction loc generalizing before incoming current with
  | nil => trivial
  | cons key loc ih => exact ⟨⟨h.1.1.swap, h.1.2.swap⟩, ih h.2⟩

/-- Exchanging the sides keeps that nothing inherited is read. -/
theorem NothingInherited.swap (h : NothingInherited before incoming current) :
    NothingInherited before current incoming := fun loc hlooks hdiffer hdescend key =>
  (h loc hlooks.swap hdiffer.swap hdescend.swap key).swap

/-! ## When the laws hold -/

/-- Where the laws hold the comparisons can be made and nothing inherited is read. -/
theorem ThreeWayLaws.reads (h : ThreeWayLaws regExpError base source target) :
    Sound (docOf base) (docOf source) (docOf target) ∧
      NothingInherited (docOf base) (docOf source) (docOf target) := by
  cases hmerge : mergeAt [] (docOf base) (docOf source) (docOf target) [] with
  | error e =>
    obtain ⟨key, -, hkey, -⟩ := h.fails_only [] _ (mergeSchemaDefinitions_of_error hmerge)
    cases hkey
  | ok merged =>
    have hsound := (mergeAt_cases hmerge).1
    exact ⟨hsound, (exists_mergeAt_iff_nothingInherited hsound).mp ⟨merged, hmerge⟩⟩

/-- The paths that a result reports are those of the conflicts. -/
theorem mem_paths_iff {result : MergedSchema}
    (h : mergeSchemaDefinitions regExpError base source target choices = .ok result)
    {p : JsString} : p ∈ result.paths ↔ IsConflictPath base source target p := by
  obtain ⟨merged, hmerged, -, rfl⟩ := mergeSchemaDefinitions_eq_ok_iff.mp h
  exact mem_conflicts_iff hmerged

/-- The merge returns a result where nothing inherited is read and there is no choice. -/
theorem mergeSchemaDefinitions_nil {merged : Merged}
    (h : mergeAt [] (docOf base) (docOf source) (docOf target) [] = .ok merged) :
    mergeSchemaDefinitions regExpError base source target [] = .ok (merged.schema regExpError) :=
  mergeSchemaDefinitions_eq_ok_iff.mpr ⟨merged, h, fun _ hkey => absurd hkey List.not_mem_nil, rfl⟩

/-- A merge that settles has nothing but a value. -/
theorem mergeAt_of_not_differ {path : JsString} {merged : Merged}
    (h : mergeAt choices before incoming current path = .ok merged)
    (hnot : ¬ Differ form before incoming current) :
    ∃ value, Settled before incoming current value ∧ merged = { value := value } := by
  obtain ⟨-, hsettled | ⟨hdiffer, -⟩ | ⟨hdiffer, -⟩⟩ := mergeAt_cases h
  · exact hsettled
  · exact absurd hdiffer hnot
  · exact absurd hdiffer hnot

/-- A merge of definitions that settles returns one of the sides. -/
theorem mergeSchemaDefinitions_of_not_differ (hsource : ReadsBack regExpError source)
    (htarget : ReadsBack regExpError target) {merged : Merged}
    (h : mergeAt [] (docOf base) (docOf source) (docOf target) [] = .ok merged)
    (hnot : ¬ Differ form (docOf base) (docOf source) (docOf target)) :
    ∃ definition, Settled (docOf base) (docOf source) (docOf target) (docOf definition) ∧
      mergeSchemaDefinitions regExpError base source target [] = .ok ⟨[], [], definition, none⟩ := by
  obtain ⟨value, hsettled, rfl⟩ := mergeAt_of_not_differ h hnot
  have hreads : ∀ definition, ReadsBack regExpError definition → value = docOf definition →
      mergeSchemaDefinitions regExpError base source target [] = .ok ⟨[], [], definition, none⟩ := by
    rintro definition hback rfl
    rw [mergeSchemaDefinitions_nil h, Merged.schema, hback]
    rfl
  have hside : value = docOf source ∨ value = docOf target := by
    rcases hsettled with ⟨-, hvalue⟩ | ⟨-, hvalue⟩ | ⟨-, hvalue⟩
    · exact .inl hvalue
    · exact .inr hvalue
    · exact .inl hvalue
  rcases hside with rfl | rfl
  · exact ⟨source, hsettled, hreads source hsource rfl⟩
  · exact ⟨target, hsettled, hreads target htarget rfl⟩

/-- A merge with choices for the conflicts and no others returns a definition. -/
theorem mergeSchemaDefinitions_of_choices {merged : Merged} {side : Choice}
    (h : mergeAt choices (docOf base) (docOf source) (docOf target) [] = .ok merged)
    (hchoices : ∀ p choice, Record.get choices p = some choice ↔
      IsConflictPath base source target p ∧ choice = side) :
    mergeSchemaDefinitions regExpError base source target choices =
        .ok (merged.schema regExpError) ∧
      (merged.schema regExpError).definition =
        (readDefinition regExpError merged.value).toOption.join := by
  have hunresolved : merged.unresolved = [] := by
    refine List.eq_nil_iff_forall_not_mem.mpr fun p hp => ?_
    obtain ⟨hpath, hnone⟩ := (mem_unresolved_iff h).1.mp hp
    rw [(hchoices p side).mpr ⟨(mem_conflicts_iff h).mp hpath, rfl⟩] at hnone
    cases hnone
  refine ⟨mergeSchemaDefinitions_eq_ok_iff.mpr ⟨merged, h, fun key hkey => ?_, rfl⟩,
    if_pos hunresolved⟩
  obtain ⟨choice, hget⟩ := Record.has_eq_true.mp (Record.mem_keys.mp hkey)
  exact (mem_unresolved_iff h).2.mpr
    ⟨(mem_conflicts_iff h).mpr ((hchoices key choice).mp hget).1, by rw [hget]; rfl⟩

/-- The merge of definitions obeys the three-way laws exactly if its comparisons can be made
and it reads nothing inherited. -/
theorem threeWayLaws_iff (regExpError : JsString → Option JsString)
    (base source target : Option YSchema) : ThreeWayLaws regExpError base source target ↔
      Sound (docOf base) (docOf source) (docOf target) ∧
        NothingInherited (docOf base) (docOf source) (docOf target) := by
  refine ⟨ThreeWayLaws.reads, fun ⟨hsound, hreads⟩ => ?_⟩
  have hmerge : ∀ choices, ∃ merged,
      mergeAt choices (docOf base) (docOf source) (docOf target) [] = .ok merged :=
    fun _ => (exists_mergeAt_iff_nothingInherited hsound).mpr hreads
  have hswap : ∀ choices, ∃ merged,
      mergeAt choices (docOf base) (docOf target) (docOf source) [] = .ok merged :=
    fun _ => (exists_mergeAt_iff_nothingInherited hsound.swap).mpr hreads.swap
  constructor
  case source_unchanged =>
    intro heq hsource htarget
    obtain ⟨merged, hmerged⟩ := hmerge []
    obtain ⟨definition, hsettled, hresult⟩ := mergeSchemaDefinitions_of_not_differ hsource htarget
      hmerged fun h => h.ours_ne heq
    exact ⟨definition, hsettled.follows.of_ours heq, hresult⟩
  case target_unchanged =>
    intro heq hsource htarget
    obtain ⟨merged, hmerged⟩ := hmerge []
    obtain ⟨definition, hsettled, hresult⟩ := mergeSchemaDefinitions_of_not_differ hsource htarget
      hmerged fun h => h.theirs_ne heq
    exact ⟨definition, hsettled.follows.of_theirs heq, hresult⟩
  case swap_conflicts =>
    intro choices result h
    obtain ⟨merged, hmerged⟩ := hswap []
    have hresult : mergeSchemaDefinitions regExpError base target source [] =
        .ok (merged.schema regExpError) := mergeSchemaDefinitions_nil hmerged
    refine ⟨_, hresult, fun p => ?_⟩
    rw [mem_paths_iff h, mem_paths_iff hresult]
    exact ⟨IsConflictPath.swap, IsConflictPath.swap⟩
  case one_sided =>
    intro choices result h
    obtain ⟨merged, hmerged, -, rfl⟩ := mergeSchemaDefinitions_eq_ok_iff.mp h
    exact ⟨merged.value, fun hunresolved => if_pos hunresolved,
      fun loc hnot => follows_of_not_conflict hmerged loc hnot⟩
  case choose_side =>
    intro choices choices' hchoices hchoices'
    obtain ⟨merged, hmerged⟩ := hmerge choices
    obtain ⟨merged', hmerged'⟩ := hswap choices'
    obtain ⟨hresult, hdefinition⟩ := mergeSchemaDefinitions_of_choices hmerged hchoices
    obtain ⟨hresult', hdefinition'⟩ := mergeSchemaDefinitions_of_choices hmerged' hchoices'
    refine ⟨merged.value, merged'.value, _, _, form_choose hmerged hmerged' (fun p hp => ?_)
      (fun p hp => ?_), hresult, hresult', hdefinition, hdefinition'⟩
    · exact (hchoices p .source).mpr ⟨(mem_conflicts_iff hmerged).mp hp, rfl⟩
    · exact (hchoices' p .target).mpr ⟨(mem_conflicts_iff hmerged').mp hp, rfl⟩
  case unresolved_null =>
    intro choices result h p hp hnone
    obtain ⟨merged, hmerged, -, rfl⟩ := mergeSchemaDefinitions_eq_ok_iff.mp h
    have hmem := (mem_unresolved_iff hmerged).1.mpr ⟨(mem_conflicts_iff hmerged).mpr hp, hnone⟩
    exact if_neg (List.ne_nil_of_mem hmem)
  case fails_only =>
    intro choices e h
    obtain ⟨merged, hmerged⟩ := hmerge choices
    rw [mergeSchemaDefinitions_of_merge hmerged] at h
    cases hfind : (Record.keys choices).find? fun key => !merged.used.contains key with
    | none =>
      rw [hfind] at h
      cases h
    | some key =>
      rw [hfind] at h
      have hkey := List.mem_of_find?_eq_some hfind
      have hunused := List.find?_some hfind
      refine ⟨key, hkey, (Except.error.inj h).symm, fun hconflict => ?_⟩
      have hused := (mem_unresolved_iff hmerged).2.mpr ⟨(mem_conflicts_iff hmerged).mpr hconflict,
        Record.mem_keys.mp hkey⟩
      simp [hused] at hunused

/-- A definition of one node with slots. -/
def oneNode (slots : Record SlotSchema) : YSchema where
  name := js "m"
  strict := some false
  nodes := [(js "a", .mk { slots := some slots } none)]
  rules := some []

/-- A slot `constructor` on one side and another new slot on the other side make the merge
throw. -/
theorem threeWayLaws_fail_on_constructor : ¬ ThreeWayLaws (fun _ => none) (some (oneNode []))
    (some (oneNode [(js "constructor", { type := some .string })]))
    (some (oneNode [(js "other", { type := some .string })])) := by
  intro h
  have hreads := h.reads.2 [js "nodes", js "a", js "slots"]
    ⟨⟨⟨by decide, by decide, by decide⟩, .inr rfl, rfl, rfl⟩,
      ⟨⟨by decide, by decide, by decide⟩, .inr rfl, rfl, rfl⟩,
      ⟨⟨by decide, by decide, by decide⟩, .inr rfl, rfl, rfl⟩, trivial⟩
    ⟨by decide, by decide, by decide⟩ ⟨.inr rfl, rfl, rfl⟩ (js "constructor") (by decide)
    (mem_memberKeys.mpr (by decide))
  exact absurd hreads.2.1 (by decide)

end T3x.SchemaMerge
