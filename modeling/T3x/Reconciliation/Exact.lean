import T3x.Reconciliation.Resolution

/-!
# When resolution by pointer is exact

Resolving every conflict to one side gives the merged document with that side's
values at the conflicts, and resolving one conflict changes the value at its
location alone, exactly when no conflict is reported at the root or at the root
member with the empty name.
-/

namespace T3x.Reconciliation

open Js ThreeWay T3x.Transition

variable {schemas : SchemaSnapshots} {localeCompare : JsString → JsString → Int}
  {sha256 : JsString → JsString}

/-- The fields of a conflict that its id digests. -/
def Conflict.facts (c : Conflict) : JsValue :=
  conflictFacts c.path c.scope c.kind c.base c.ours c.theirs

/-- One of the three documents. -/
inductive Side where
  | base
  | ours
  | theirs

/-- The choice of a side. -/
def Side.choice : Side → Choice
  | .base => .base
  | .ours => .ours
  | .theirs => .theirs

/-- The document of a side. -/
def PreparationInput.document (input : PreparationInput schemas) : Side → JsValue
  | .base => input.base
  | .ours => input.ours
  | .theirs => input.theirs

/-- The three documents conflict at a location. -/
def PreparationInput.Conflicts (input : PreparationInput schemas) (loc : Location) : Prop :=
  ConflictAt loc (some input.base) (some input.ours) (some input.theirs)

/-! ## What a preparation lists -/

/-- What makes a conflict of the content: the documents' values at its path and
the id of its fields. -/
structure IsContentConflict (sha256 : JsString → JsString) (base ours theirs : JsValue)
    (c : Conflict) : Prop where
  /-- It is about the content. -/
  scope : c.scope = .content
  /-- The base's value. -/
  base : c.base = pointerValue base c.path .base
  /-- Our value. -/
  ours : c.ours = pointerValue ours c.path .workspaceDraft
  /-- Their value. -/
  theirs : c.theirs = pointerValue theirs c.path .branch
  /-- The id digests the fields. -/
  id : digest sha256 c.facts = .ok c.id

/-- A conflict made from fields has these fields and their digest. -/
theorem conflictOf_eq_ok {path : JsString} {scope : Scope} {kind : ConflictKind}
    {base ours theirs : ReconciliationValue} {c : Conflict}
    (h : conflictOf sha256 path scope kind base ours theirs = .ok c) :
    c.path = path ∧ c.scope = scope ∧ c.base = base ∧ c.ours = ours ∧ c.theirs = theirs ∧
      digest sha256 c.facts = .ok c.id := by
  unfold conflictOf at h
  cases hid : digest sha256 (conflictFacts path scope kind base ours theirs) with
  | error e => simp only [hid, reduceCtorEq] at h
  | ok id =>
    simp only [hid, Except.ok.injEq] at h
    subst h
    exact ⟨rfl, rfl, rfl, rfl, rfl, hid⟩

/-- The conflicts of the content stand at the reported paths. -/
theorem contentConflicts_eq_ok {base ours theirs : JsValue} {paths : List JsString}
    {cs : List Conflict} (h : contentConflicts sha256 base ours theirs paths = .ok cs) :
    cs.map Conflict.path = paths ∧ ∀ c ∈ cs, IsContentConflict sha256 base ours theirs c := by
  induction paths generalizing cs with
  | nil =>
    obtain rfl := Except.ok.inj h
    simp
  | cons path paths ih =>
    simp only [contentConflicts] at h
    cases hc : conflictOf sha256 path .content (conflictKind (pointerValue base path .base)
        (pointerValue ours path .workspaceDraft) (pointerValue theirs path .branch))
        (pointerValue base path .base) (pointerValue ours path .workspaceDraft)
        (pointerValue theirs path .branch) with
    | error e => simp only [hc, reduceCtorEq] at h
    | ok c =>
      cases hrest : contentConflicts sha256 base ours theirs paths with
      | error e => simp only [hc, hrest, reduceCtorEq] at h
      | ok rest =>
        simp only [hc, hrest, Except.ok.injEq] at h
        subst h
        obtain ⟨hpaths, hall⟩ := ih hrest
        obtain ⟨hpath, hscope, hb, ho, ht, hid⟩ := conflictOf_eq_ok hc
        refine ⟨by rw [List.map_cons, hpath, hpaths], fun c' hc' => ?_⟩
        rcases List.mem_cons.mp hc' with rfl | hc'
        · exact ⟨hscope, by rw [hb, hpath], by rw [ho, hpath], by rw [ht, hpath], hid⟩
        · exact hall c' hc'

/-- A conflict of the schema carries the three snapshots. -/
theorem reconcileWorkspaceSchemas_eq_ok {base ours theirs merged : schemas.Snapshot}
    {conflict : Option Conflict}
    (h : reconcileWorkspaceSchemas sha256 base ours theirs = .ok (merged, conflict)) :
    ∀ c ∈ conflict, c.scope = .schema ∧ c.base = schemaValue .base base ∧
      c.ours = schemaValue .workspaceDraft ours ∧ c.theirs = schemaValue .branch theirs ∧
      digest sha256 c.facts = .ok c.id := by
  intro c hc
  unfold reconcileWorkspaceSchemas at h
  cases hsettle : settle sameSchema base ours theirs with
  | some value =>
    simp only [hsettle, Except.ok.injEq, Prod.mk.injEq] at h
    rw [← h.2] at hc
    simp at hc
  | none =>
    cases hmade : conflictOf sha256 (js "/schema") .schema .schema (schemaValue .base base)
        (schemaValue .workspaceDraft ours) (schemaValue .branch theirs) with
    | error e => simp only [hsettle, hmade, reduceCtorEq] at h
    | ok made =>
      simp only [hsettle, hmade, Except.ok.injEq, Prod.mk.injEq] at h
      rw [← h.2] at hc
      obtain rfl : made = c := by simpa using hc
      exact (conflictOf_eq_ok hmade).2

/-- What a preparation holds: the merged document and the conflicts of the
content, then that of the schema. -/
theorem preparationFromDocuments_eq_ok {input : PreparationInput schemas}
    {preparation : Preparation schemas}
    (h : preparationFromDocuments sha256 input = .ok preparation) :
    preparation.merged = (reconcileDocuments input.base input.ours input.theirs).current ∧
    ∃ contents : List Conflict, ∃ schemaConflict : Option Conflict,
      preparation.conflicts = contents ++ schemaConflict.toList ∧
      contents.map Conflict.path =
        (reconcileDocuments input.base input.ours input.theirs).conflicts ∧
      (∀ c ∈ contents, IsContentConflict sha256 input.base input.ours input.theirs c) ∧
      ∀ c ∈ schemaConflict, c.scope = .schema ∧ c.base = schemaValue .base input.schemaBase ∧
        c.ours = schemaValue .workspaceDraft input.schemaOurs ∧
        c.theirs = schemaValue .branch input.schemaTheirs ∧ digest sha256 c.facts = .ok c.id := by
  unfold preparationFromDocuments at h
  simp only at h
  cases hcontents : contentConflicts sha256 input.base input.ours input.theirs
      (reconcileDocuments input.base input.ours input.theirs).conflicts with
  | error e => simp only [hcontents, reduceCtorEq] at h
  | ok contents =>
    cases hschema : reconcileWorkspaceSchemas sha256 input.schemaBase input.schemaOurs
        input.schemaTheirs with
    | error e => simp only [hcontents, hschema, reduceCtorEq] at h
    | ok result =>
      obtain ⟨schemaMerged, schemaConflict⟩ := result
      cases hdigest : digest sha256 (preparationPayload input
          (reconcileDocuments input.base input.ours input.theirs).current schemaMerged
          (contents ++ schemaConflict.toList)) with
      | error e => simp only [hcontents, hschema, hdigest, reduceCtorEq] at h
      | ok preparationDigest =>
        simp only [hcontents, hschema, hdigest, Except.ok.injEq] at h
        subst h
        obtain ⟨hpaths, hall⟩ := contentConflicts_eq_ok hcontents
        exact ⟨rfl, contents, schemaConflict, rfl, hpaths, hall,
          reconcileWorkspaceSchemas_eq_ok hschema⟩

/-! ## Distinct ids -/

/-- The texts that the ids of a preparation's conflicts hash are told apart. -/
def CollisionFree (sha256 : JsString → JsString) (cs : List Conflict) : Prop :=
  ∀ c ∈ cs, ∀ c' ∈ cs, ∀ text text', digestText c.facts = .ok text →
    digestText c'.facts = .ok text' → sha256 text = sha256 text' → text = text'

/-- A digest hashes the canonical text of its value. -/
theorem digest_eq_ok {value : JsValue} {id : JsString} (h : digest sha256 value = .ok id) :
    ∃ text, digestText value = .ok text ∧ id = js "sha256:" ++ sha256 text := by
  unfold digest at h
  cases htext : digestText value with
  | error e => simp only [htext, reduceCtorEq] at h
  | ok text =>
    simp only [htext, Except.ok.injEq] at h
    exact ⟨text, rfl, h.symm⟩

/-- Conflicts of one id have one path and one scope. -/
theorem path_scope_of_id {cs : List Conflict} (hfree : CollisionFree sha256 cs) {c c' : Conflict}
    (hc : c ∈ cs) (hc' : c' ∈ cs) (hid : digest sha256 c.facts = .ok c.id)
    (hid' : digest sha256 c'.facts = .ok c'.id) (h : c.id = c'.id) :
    c.path = c'.path ∧ c.scope = c'.scope := by
  obtain ⟨text, htext, heq⟩ := digest_eq_ok hid
  obtain ⟨text', htext', heq'⟩ := digest_eq_ok hid'
  have hhash : sha256 text = sha256 text' := List.append_cancel_left (heq.symm.trans (h.trans heq'))
  obtain rfl := hfree c hc c' hc' text text' htext htext' hhash
  have hfacts := denote_eq_of_canonical htext htext'
  rw [JsValue.denote_jsonClone, JsValue.denote_jsonClone] at hfacts
  have hmember := JsValue.denote_obj_eq_iff.mp hfacts
  have hpath : some (Doc.str c.path) = some (Doc.str c'.path) := hmember (js "path")
  have hscope : some (Doc.str c.scope.text) = some (Doc.str c'.scope.text) := hmember (js "scope")
  refine ⟨Doc.str.inj (Option.some.inj hpath), ?_⟩
  have htext := Doc.str.inj (Option.some.inj hscope)
  revert htext
  cases c.scope <;> cases c'.scope <;> decide

/-- Conflict paths tell conflicts below the root apart, the member with the empty
name excepted. -/
theorem conflictPath_inj {loc loc' : Location} (hloc : loc ≠ [[]]) (hloc' : loc' ≠ [[]])
    (h : conflictPath loc = conflictPath loc') : loc = loc' := by
  have hsegments := pointerSegments_conflictPath hloc
  rw [h, pointerSegments_conflictPath hloc'] at hsegments
  exact (Except.ok.inj hsegments).symm

/-- The resolutions of distinct conflicts are found by their ids. -/
theorem resolutionsById_eq_ok {resolutions : List Resolution} (byId : Record Resolution)
    (hnodup : (resolutions.map Resolution.conflictId).Nodup)
    (hnew : ∀ r ∈ resolutions, Record.get byId r.conflictId = none) :
    ∃ byId', resolutionsById resolutions byId = .ok byId' ∧
      (∀ r ∈ resolutions, Record.get byId' r.conflictId = some r) ∧
      ∀ id, id ∉ resolutions.map Resolution.conflictId →
        Record.get byId' id = Record.get byId id := by
  induction resolutions generalizing byId with
  | nil => exact ⟨byId, rfl, by simp, fun _ _ => rfl⟩
  | cons r rest ih =>
    obtain ⟨hnot, hrest⟩ := List.nodup_cons.mp hnodup
    have hr : Record.has byId r.conflictId = false :=
      Record.has_eq_false.mpr (hnew r List.mem_cons_self)
    have hne : ∀ r' ∈ rest, r'.conflictId ≠ r.conflictId := by
      intro r' hr' heq
      exact hnot (List.mem_map.mpr ⟨r', hr', heq⟩)
    obtain ⟨byId', hok, hget, hother⟩ := ih (Record.mapSet byId r.conflictId r) hrest (by
      intro r' hr'
      rw [Record.get_mapSet, if_neg (hne r' hr')]
      exact hnew r' (List.mem_cons_of_mem _ hr'))
    refine ⟨byId', ?_, ?_, ?_⟩
    · rw [resolutionsById, hr]
      exact hok
    · intro r' hr'
      rcases List.mem_cons.mp hr' with rfl | hr'
      · rw [hother _ hnot, Record.get_mapSet, if_pos rfl]
      · exact hget r' hr'
    · intro id hid
      rw [List.map_cons, List.mem_cons, not_or] at hid
      rw [hother id hid.2, Record.get_mapSet, if_neg hid.1]

/-! ## Writing all resolutions -/

/-- Two conflicts at different locations are neither above nor below each other. -/
theorem conflicts_unrelated {input : PreparationInput schemas} {loc loc' : Location}
    (h : input.Conflicts loc) (h' : input.Conflicts loc') (hne : loc ≠ loc') :
    ¬ loc <+: loc' ∧ ¬ loc' <+: loc :=
  ⟨fun hpre => hne (h.eq_of_prefix h' hpre),
    fun hpre => hne (h'.eq_of_prefix h hpre).symm⟩

/-- The conflict at a location that is still to be resolved stands below mappings
of the document in which others are resolved. -/
theorem isObj_above_open {input : PreparationInput schemas} {merged document : Option JsValue}
    {done : Location → Prop} {chosen : Location → Option JsValue} {loc : Location}
    (hpatched : IsPatched JsNumber.dropZeroSign merged done chosen document)
    (hdone : ∀ d, done d → input.Conflicts d) (hloc : input.Conflicts loc) (hopen : ¬ done loc)
    (hmerged : ∀ anc, anc <+: loc → anc ≠ loc → isObj (valueAt merged anc) = true) :
    ∀ anc, anc <+: loc → anc ≠ loc → isObj (valueAt document anc) = true := by
  intro anc hpre hne
  have hunrelated : ∀ d, done d → ¬ d <+: loc := fun d hd =>
    (conflicts_unrelated (hdone d hd) hloc (by rintro rfl; exact hopen hd)).1
  by_cases habove : ∃ d, done d ∧ anc <+: d
  · obtain ⟨d, hd, hanc⟩ := habove
    refine hpatched.above anc d hd hanc ?_
    rintro rfl
    exact hunrelated anc hd hpre
  · have helsewhere := hpatched.elsewhere anc fun d hd =>
      ⟨fun h => hunrelated d hd (h.trans hpre), fun h => habove ⟨d, hd, h⟩⟩
    rw [isObj_congr helsewhere]
    exact hmerged anc hpre hne

variable (localeCompare)

/-- Writing the resolutions of conflicts of the content, one after another,
patches the merged document at their locations. -/
theorem resolveConflicts_patches {input : PreparationInput schemas} (merged : Option JsValue)
    {byId : Record Resolution} {chosen : Location → Option JsValue}
    (hroot : ¬ input.Conflicts []) (hempty : ¬ input.Conflicts [[]])
    (hmerged : ∀ loc, input.Conflicts loc →
      ∀ anc, anc <+: loc → anc ≠ loc → isObj (valueAt merged anc) = true)
    {cs : List Conflict} (hpaths : (cs.map Conflict.path).Nodup)
    (hcs : ∀ c ∈ cs, c.scope = .content ∧ ∃ loc resolution, input.Conflicts loc ∧
      c.path = conflictPath loc ∧ Record.get byId c.id = some resolution ∧
      (c.selected resolution.choice).value = chosen loc ∧
      (c.selected resolution.choice).present = (c.selected resolution.choice).value.isSome)
    {done : Location → Prop} {document : Option JsValue} (schema : schemas.Snapshot)
    (hdone : ∀ d, done d → input.Conflicts d)
    (hopen : ∀ loc, done loc → conflictPath loc ∉ cs.map Conflict.path)
    (hpatched : IsPatched JsNumber.dropZeroSign merged done chosen document) :
    ∃ document', resolveConflicts localeCompare byId cs document schema =
        .ok (document', schema) ∧
      IsPatched JsNumber.dropZeroSign merged
        (fun loc => done loc ∨ input.Conflicts loc ∧ conflictPath loc ∈ cs.map Conflict.path)
        chosen document' := by
  have hne : ∀ {loc}, input.Conflicts loc → loc ≠ [] ∧ loc ≠ [[]] := by
    intro loc h
    exact ⟨by rintro rfl; exact hroot h, by rintro rfl; exact hempty h⟩
  induction cs generalizing done document with
  | nil => exact ⟨document, rfl, by simpa using hpatched⟩
  | cons c cs ih =>
    obtain ⟨hnot, hrest⟩ := List.nodup_cons.mp hpaths
    obtain ⟨hscope, loc, resolution, hloc, hpath, hget, hvalue, hpresent⟩ :=
      hcs c List.mem_cons_self
    have hlocOpen : ¬ done loc := fun h => hopen loc h (by rw [← hpath]; simp)
    obtain ⟨result, hreplace, hone⟩ := replacePointer_patches localeCompare
      (hne hloc).1 (hne hloc).2 hpresent
      (isObj_above_open hpatched hdone hloc hlocOpen (hmerged loc hloc))
    have hnext := hpatched.insert hone (by rw [hvalue]) fun d hd =>
      conflicts_unrelated (hdone d hd) hloc (by rintro rfl; exact hlocOpen hd)
    obtain ⟨document', hok, hfinal⟩ := ih hrest
      (fun c' hc' => hcs c' (List.mem_cons_of_mem _ hc'))
      (by rintro d (hd | rfl); exacts [hdone d hd, hloc])
      (by
        rintro d (hd | rfl) hmem
        · exact hopen d hd (List.mem_cons_of_mem _ hmem)
        · exact hnot (hpath ▸ hmem))
      hnext
    refine ⟨document', ?_, ?_⟩
    · simp only [resolveConflicts, resolveConflict, hget, hscope, hpath, hreplace]
      exact hok
    · convert hfinal using 2 with loc'
      simp only [List.map_cons, List.mem_cons, hpath]
      constructor
      · rintro (h | ⟨h, heq | hmem⟩)
        · exact .inl (.inl h)
        · exact .inl (.inr (conflictPath_inj (hne h).2 (hne hloc).2 heq))
        · exact .inr ⟨h, hmem⟩
      · rintro ((h | rfl) | ⟨h, hmem⟩)
        · exact .inl h
        · exact .inr ⟨hloc, .inl rfl⟩
        · exact .inr ⟨h, .inr hmem⟩

variable {localeCompare} in
/-- Resolving the conflicts of a list and then further ones. -/
theorem resolveConflicts_append {byId : Record Resolution} {cs cs' : List Conflict}
    {document document' : Option JsValue} {schema schema' : schemas.Snapshot}
    (h : resolveConflicts localeCompare byId cs document schema = .ok (document', schema')) :
    resolveConflicts localeCompare byId (cs ++ cs') document schema =
      resolveConflicts localeCompare byId cs' document' schema' := by
  induction cs generalizing document schema with
  | nil =>
    obtain ⟨rfl, rfl⟩ := Prod.mk.inj (Except.ok.inj h)
    rfl
  | cons c cs ih =>
    rw [List.cons_append]
    simp only [resolveConflicts] at h ⊢
    cases hc : resolveConflict localeCompare byId c document schema with
    | error e => simp only [hc, reduceCtorEq] at h
    | ok result =>
      simp only [hc] at h ⊢
      exact ih h

/-- Resolving the conflict of the schema to a side leaves the document alone. -/
theorem resolveConflicts_schema {input : PreparationInput schemas} {byId : Record Resolution}
    {schemaConflict : Option Conflict} {side : Side} (document : Option JsValue)
    (schema : schemas.Snapshot)
    (hschema : ∀ c ∈ schemaConflict, c.scope = .schema ∧
      c.base = schemaValue .base input.schemaBase ∧
      c.ours = schemaValue .workspaceDraft input.schemaOurs ∧
      c.theirs = schemaValue .branch input.schemaTheirs ∧ digest sha256 c.facts = .ok c.id)
    (hbyId : ∀ c ∈ schemaConflict, Record.get byId c.id = some ⟨c.id, side.choice⟩) :
    ∃ schema', resolveConflicts localeCompare byId schemaConflict.toList document schema =
      .ok (document, schema') := by
  cases schemaConflict with
  | none => exact ⟨schema, rfl⟩
  | some c =>
    obtain ⟨hscope, hbase, hours, htheirs, -⟩ := hschema c rfl
    have hget := hbyId c rfl
    cases side <;>
      simp only [Option.toList_some, resolveConflicts, resolveConflict, hget, hscope,
        Conflict.selected, Side.choice, hbase, hours, htheirs, schemaValue,
        schemas.parse_toDocument] <;>
      exact ⟨_, rfl⟩

/-- The conflict of the content at a location carries what a side's document has
there. -/
theorem IsContentConflict.selected {input : PreparationInput schemas} {c : Conflict}
    (h : IsContentConflict sha256 input.base input.ours input.theirs c) {loc : Location}
    (hroot : loc ≠ []) (hempty : loc ≠ [[]]) (hpath : c.path = conflictPath loc) (side : Side) :
    (c.selected side.choice).value = valueAt (some (input.document side)) loc ∧
      (c.selected side.choice).present = (c.selected side.choice).value.isSome := by
  cases side <;>
    simp only [Conflict.selected, Side.choice, PreparationInput.document, h.base, h.ours, h.theirs,
      hpath, pointerValue_conflictPath hroot hempty, and_self]

/-- The ids of a preparation's conflicts are distinct. -/
theorem conflict_ids_nodup {input : PreparationInput schemas} {contents : List Conflict}
    {schemaConflict : Option Conflict} (hpaths : (contents.map Conflict.path).Nodup)
    (hcontents : ∀ c ∈ contents, IsContentConflict sha256 input.base input.ours input.theirs c)
    (hschema : ∀ c ∈ schemaConflict, c.scope = .schema ∧ digest sha256 c.facts = .ok c.id)
    (hfree : CollisionFree sha256 (contents ++ schemaConflict.toList)) :
    ((contents ++ schemaConflict.toList).map Conflict.id).Nodup := by
  have hid : ∀ c ∈ contents ++ schemaConflict.toList, digest sha256 c.facts = .ok c.id := by
    intro c hc
    rcases List.mem_append.mp hc with hc | hc
    · exact (hcontents c hc).id
    · exact (hschema c (by simpa using hc)).2
  have hcontent : ∀ c ∈ contents, ∀ c' ∈ schemaConflict.toList, c.id ≠ c'.id := by
    intro c hc c' hc' heq
    have hmem := List.mem_append_left schemaConflict.toList hc
    have hmem' := List.mem_append_right contents hc'
    have hscope := (path_scope_of_id hfree hmem hmem' (hid c hmem) (hid c' hmem') heq).2
    rw [(hcontents c hc).scope, (hschema c' (by simpa using hc')).1] at hscope
    simp at hscope
  rw [List.map_append, List.nodup_append]
  refine ⟨?_, ?_, ?_⟩
  · refine List.Nodup.map_on ?_ (List.Nodup.of_map _ hpaths)
    intro c hc c' hc' heq
    have hmem := List.mem_append_left schemaConflict.toList hc
    have hmem' := List.mem_append_left schemaConflict.toList hc'
    exact List.inj_on_of_nodup_map hpaths hc hc'
      (path_scope_of_id hfree hmem hmem' (hid c hmem) (hid c' hmem') heq).1
  · cases schemaConflict <;> simp
  · intro id hmem id' hmem' heq
    obtain ⟨c, hc, rfl⟩ := List.mem_map.mp hmem
    obtain ⟨c', hc', rfl⟩ := List.mem_map.mp hmem'
    exact hcontent c hc c' hc' heq

/-- When every conflict has one resolution and no resolution is for anything
else, the resolutions are written. -/
theorem resolvePreparation_eq {preparation : Preparation schemas} {side : Side}
    {resolutions : List Resolution}
    (hids : (preparation.conflicts.map Conflict.id).Nodup)
    (hperm : resolutions.Perm (preparation.conflicts.map fun c => ⟨c.id, side.choice⟩)) :
    ∃ byId, (∀ c ∈ preparation.conflicts, Record.get byId c.id = some ⟨c.id, side.choice⟩) ∧
      resolvePreparation localeCompare preparation resolutions =
        resolveConflicts localeCompare byId preparation.conflicts preparation.merged
          preparation.schemaMerged := by
  have hmap : (resolutions.map Resolution.conflictId).Perm
      (preparation.conflicts.map Conflict.id) := by
    have h := hperm.map Resolution.conflictId
    rwa [List.map_map] at h
  obtain ⟨byId, hok, hget, hother⟩ := resolutionsById_eq_ok []
    (hmap.nodup_iff.mpr hids) (fun _ _ => rfl)
  have hfound : ∀ c ∈ preparation.conflicts,
      Record.get byId c.id = some ⟨c.id, side.choice⟩ := fun c hc =>
    hget ⟨c.id, side.choice⟩ (hperm.mem_iff.mpr (List.mem_map.mpr ⟨c, hc, rfl⟩))
  refine ⟨byId, hfound, ?_⟩
  have hunknown : (Record.keys byId).filter
      (fun id => !(preparation.conflicts.map Conflict.id).contains id) = [] := by
    refine List.filter_eq_nil_iff.mpr fun id hid => ?_
    obtain ⟨r, hr⟩ := Record.has_eq_true.mp (Record.mem_keys.mp hid)
    have hmem : id ∈ preparation.conflicts.map Conflict.id := by
      by_contra hnot
      rw [hother id fun h => hnot (hmap.mem_iff.mp h)] at hr
      simp [Record.get] at hr
    simpa using hmem
  have hmissing : preparation.conflicts.filter (fun c => !Record.has byId c.id) = [] := by
    refine List.filter_eq_nil_iff.mpr fun c hc => ?_
    simp [Record.has, hfound c hc]
  simp only [resolvePreparation, hok, hunknown, hmissing, ne_eq, not_true_eq_false, if_false]

/-! ## Exactness -/

/-- Resolution by pointer is exact for three documents. -/
structure ResolvesExactly (localeCompare : JsString → JsString → Int)
    (input : PreparationInput schemas) : Prop where
  /-- Resolving every conflict to one side, in any order, gives the merged
  document with that side's values at the conflicts. -/
  all_to_side : ∀ sha256 preparation, preparationFromDocuments sha256 input = .ok preparation →
    CollisionFree sha256 preparation.conflicts → ∀ side resolutions,
    resolutions.Perm (preparation.conflicts.map fun c => ⟨c.id, side.choice⟩) →
    ∃ document schema,
      resolvePreparation localeCompare preparation resolutions = .ok (document, schema) ∧
      IsPatched JsNumber.dropZeroSign preparation.merged input.Conflicts
        (valueAt (some (input.document side))) document
  /-- Resolving one conflict changes the value at its location alone, and its
  pointer then reads the value written. -/
  single : ∀ loc, input.Conflicts loc → ∀ (document : JsValue) (selected : ReconciliationValue),
    selected.present = selected.value.isSome →
    (∀ anc, anc <+: loc → anc ≠ loc → isObj (valueAt (some document) anc) = true) →
    ∃ result,
      replacePointer localeCompare (some document) (conflictPath loc) selected = .ok result ∧
      IsPatched JsNumber.dropZeroSign (some document) (· = loc) (fun _ => selected.value)
        (some result) ∧
      ∀ source, (pointerValue result (conflictPath loc) source).present = selected.present ∧
        reading JsNumber.dropZeroSign (pointerValue result (conflictPath loc) source).value =
          reading JsNumber.dropZeroSign selected.value

/-- Without a conflict at the root or its member with the empty name, resolving
every conflict to one side is exact. -/
theorem resolve_all_to_side {input : PreparationInput schemas} (hroot : ¬ input.Conflicts [])
    (hempty : ¬ input.Conflicts [[]]) {preparation : Preparation schemas}
    (hprep : preparationFromDocuments sha256 input = .ok preparation)
    (hfree : CollisionFree sha256 preparation.conflicts) {side : Side}
    {resolutions : List Resolution}
    (hperm : resolutions.Perm (preparation.conflicts.map fun c => ⟨c.id, side.choice⟩)) :
    ∃ document schema,
      resolvePreparation localeCompare preparation resolutions = .ok (document, schema) ∧
      IsPatched JsNumber.dropZeroSign preparation.merged input.Conflicts
        (valueAt (some (input.document side))) document := by
  have hne : ∀ {loc}, input.Conflicts loc → loc ≠ [] ∧ loc ≠ [[]] := by
    intro loc h
    exact ⟨by rintro rfl; exact hroot h, by rintro rfl; exact hempty h⟩
  obtain ⟨hmerged, contents, schemaConflict, hconflicts, hpaths, hcontents, hschema⟩ :=
    preparationFromDocuments_eq_ok hprep
  obtain ⟨locs, hlocs, hmem, hreported⟩ :=
    merge_conflicts (some input.base) (some input.ours) (some input.theirs) []
  have hpathsLocs : contents.map Conflict.path = locs.map conflictPath := hpaths.trans hreported
  have hnodup : (contents.map Conflict.path).Nodup := by
    rw [hpathsLocs]
    refine List.Nodup.map_on ?_ hlocs
    exact fun loc hloc loc' hloc' heq => conflictPath_inj (hne ((hmem loc).mp hloc)).2
      (hne ((hmem loc').mp hloc')).2 heq
  have hids : (preparation.conflicts.map Conflict.id).Nodup := by
    rw [hconflicts] at hfree ⊢
    exact conflict_ids_nodup hnodup hcontents
      (fun c hc => ⟨(hschema c hc).1, (hschema c hc).2.2.2.2⟩) hfree
  obtain ⟨byId, hbyId, hresolve⟩ := resolvePreparation_eq localeCompare hids hperm
  rw [hconflicts] at hbyId hresolve
  have hcs : ∀ c ∈ contents, c.scope = .content ∧ ∃ loc resolution, input.Conflicts loc ∧
      c.path = conflictPath loc ∧ Record.get byId c.id = some resolution ∧
      (c.selected resolution.choice).value = valueAt (some (input.document side)) loc ∧
      (c.selected resolution.choice).present =
        (c.selected resolution.choice).value.isSome := by
    intro c hc
    have hpath : c.path ∈ locs.map conflictPath := by
      rw [← hpathsLocs]
      exact List.mem_map.mpr ⟨c, hc, rfl⟩
    obtain ⟨loc, hloc, heq⟩ := List.mem_map.mp hpath
    have hconflict := (hmem loc).mp hloc
    exact ⟨(hcontents c hc).scope, loc, _, hconflict, heq.symm,
      hbyId c (List.mem_append_left _ hc),
      (hcontents c hc).selected (hne hconflict).1 (hne hconflict).2 heq.symm side⟩
  obtain ⟨document, hok, hpatched⟩ := resolveConflicts_patches localeCompare
    preparation.merged hroot hempty
    (fun loc hloc anc hpre hanc => by
      rw [hmerged]
      exact isObj_merge_above hloc hpre hanc [])
    hnodup hcs preparation.schemaMerged (fun _ h => h.elim) (fun _ h => h.elim)
    isPatched_nowhere
  obtain ⟨schema, hschemaOk⟩ := resolveConflicts_schema localeCompare document
    preparation.schemaMerged hschema (fun c hc => hbyId c (List.mem_append_right _ (by simpa using hc)))
  refine ⟨document, schema, ?_, ?_⟩
  · rw [hresolve, resolveConflicts_append hok, hschemaOk]
  · convert hpatched using 2 with loc
    simp only [false_or]
    refine ⟨fun h => ⟨h, ?_⟩, fun h => h.1⟩
    rw [hpathsLocs]
    exact List.mem_map.mpr ⟨loc, (hmem loc).mpr h, rfl⟩

variable {localeCompare} in
/-- A conflict at the root or at its member with the empty name is not resolved
exactly: writing `null` at the pointer `/` gives `{}`. -/
theorem not_resolvesExactly {input : PreparationInput schemas} {loc : Location}
    (hslash : loc = [] ∨ loc = [[]]) (hconflict : input.Conflicts loc) :
    ¬ ResolvesExactly localeCompare input := by
  intro h
  have hnull : replacePointer localeCompare (some input.base) (conflictPath loc)
      ⟨.resolution, true, some .null⟩ = .ok (.obj []) := by
    rcases hslash with rfl | rfl <;> rfl
  have habove : ∀ anc, anc <+: loc → anc ≠ loc →
      isObj (valueAt (some input.base) anc) = true := by
    intro anc hpre hne
    rcases hslash with rfl | rfl
    · exact absurd (List.prefix_nil.mp hpre) hne
    · rcases anc with _ | ⟨key, anc⟩
      · exact hconflict.2.1.1
      · obtain ⟨rfl, hrest⟩ := List.cons_prefix_cons.mp hpre
        exact absurd (by rw [List.prefix_nil.mp hrest]) hne
  obtain ⟨result, hresult, hpatched, -⟩ := h.single loc hconflict input.base
    ⟨.resolution, true, some .null⟩ rfl habove
  obtain rfl := Except.ok.inj (hnull.symm.trans hresult)
  have hread := hpatched.at_patched loc rfl
  rcases hslash with rfl | rfl <;> exact absurd hread (by decide)

/-- Resolution by pointer is exact exactly when the documents conflict neither at
the root nor at the root member with the empty name. -/
theorem resolvesExactly_iff (localeCompare : JsString → JsString → Int)
    (input : PreparationInput schemas) :
    ResolvesExactly localeCompare input ↔ ¬ input.Conflicts [] ∧ ¬ input.Conflicts [[]] := by
  constructor
  · intro h
    exact ⟨fun hconflict => not_resolvesExactly (.inl rfl) hconflict h,
      fun hconflict => not_resolvesExactly (.inr rfl) hconflict h⟩
  · rintro ⟨hroot, hempty⟩
    refine ⟨fun sha256 preparation hprep hfree side resolutions hperm =>
      resolve_all_to_side localeCompare hroot hempty hprep hfree hperm, ?_⟩
    intro loc hloc document selected hpresent habove
    have hne : loc ≠ [] ∧ loc ≠ [[]] :=
      ⟨by rintro rfl; exact hroot hloc, by rintro rfl; exact hempty hloc⟩
    obtain ⟨result, hresult, hpatched⟩ := replacePointer_patches localeCompare
      hne.1 hne.2 hpresent habove
    refine ⟨result, hresult, hpatched, fun source => ?_⟩
    have hread := hpatched.at_patched loc rfl
    rw [pointerValue_conflictPath hne.1 hne.2]
    refine ⟨?_, hread⟩
    have hsome := congrArg Option.isSome hread
    rw [reading, reading, Option.isSome_map, Option.isSome_map] at hsome
    rw [hpresent, ← hsome]

/-- Snapshots that are all the unbound schema. -/
def unboundSchemas : SchemaSnapshots where
  Snapshot := Unit
  schemaIdentity _ := .null
  bound _ := false
  toDocument _ := .null
  parse _ := .ok ()
  parse_toDocument _ := rfl

/-- Both sides changed the member with the empty name of `{"": null}`, and our
side added the member `a`. -/
def emptyNameInput : PreparationInput unboundSchemas where
  workspaceRevision := .zero
  refName := js "main"
  baseHead := none
  currentRefHead := none
  base := .obj [([], .null)]
  ours := .obj [([], .bool true), (js "a", .bool true)]
  theirs := .obj [([], .bool false)]
  schemaBase := ()
  schemaOurs := ()
  schemaTheirs := ()

/-- Resolving the conflict at the member with the empty name to their side writes
their whole document, and the member `a` of the merged document is lost. -/
theorem resolve_empty_name_loses_member :
    ¬ ResolvesExactly compareCodeUnits emptyNameInput ∧
    emptyNameInput.Conflicts [[]] ∧
    valueAt (reconcileDocuments emptyNameInput.base emptyNameInput.ours
      emptyNameInput.theirs).current [js "a"] = some (.bool true) ∧
    ∃ result, replacePointer compareCodeUnits
        (reconcileDocuments emptyNameInput.base emptyNameInput.ours emptyNameInput.theirs).current
        (conflictPath [[]]) (pointerValue emptyNameInput.theirs (conflictPath [[]]) .branch) =
      .ok result ∧ valueAt (some result) [js "a"] = none := by
  have hconflict : emptyNameInput.Conflicts [[]] :=
    ⟨⟨by decide, by decide, by decide⟩, by decide, ⟨by decide, by decide, by decide⟩, by decide⟩
  refine ⟨not_resolvesExactly (.inr rfl) hconflict, hconflict, ?_, .obj [([], .bool false)], ?_,
    by decide⟩
  · have hopen : settle isDeepStrictEqual (some emptyNameInput.base) (some emptyNameInput.ours)
        (some emptyNameInput.theirs) = none := by decide
    unfold reconcileDocuments
    rw [merge_eq, hopen]
    simp only [emptyNameInput]
    rw [valueAt_cons, member_collect]
    decide
  · rfl

end T3x.Reconciliation
