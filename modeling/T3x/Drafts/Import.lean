import T3x.Drafts.History
import T3x.Yops.Quoting
import T3x.Yops.Roots

/-!
# Importing a legacy document

A draft without actions is imported as one action on its base: for every root key
whose value is another in the current document, a write or a removal at the JSON text
of the key. The text of a key with a control character or a lone surrogate is no path
that the parser reads: both documents are then read elsewhere, and an operation at it
is refused. So the import is complete exactly when such keys have the same values in
both documents, at the key and elsewhere.
-/

namespace T3x.Drafts

open Js T3x.Run T3x.Yops

/-! ## The operations -/

/-- `mappingKeys(value)`. -/
def mappingKeys : JsValue → List JsString
  | .obj members => Record.keys members
  | _ => []

/-- The root keys of the current document, and then those of the base that it has not. -/
def importKeys (base current : JsValue) : List JsString :=
  (mappingKeys base).foldl (fun keys key => if key ∈ keys then keys else keys ++ [key])
    (mappingKeys current)

/-- `yValuesEqual(left, right)` of values that may be absent. -/
def readingsEqual : Option JsValue → Option JsValue → Bool
  | none, none => true
  | some left, some right => yValuesEqual left right
  | _, _ => false

/-- A write of a value under a root key, or the removal of the key. -/
def rootWrite (key : JsString) (after : Option JsValue) : JsValue :=
  after.elim (unsetKey (quote key)) (setValue (quote key))

/-- The operation for a root key, if the documents differ there. -/
def diffOp (base current : JsValue) (key : JsString) : Option JsValue :=
  if readingsEqual (mappingGet base (quote key)) (mappingGet current (quote key)) then none
  else some (rootWrite key (mappingGet current (quote key)))

/-- `diffSetOps(base, current)`. -/
def diffSetOps (base current : JsValue) : Except JsString (List JsValue) :=
  if isMapping base = false ∨ isMapping current = false then
    .error (js "Legacy import requires mapping documents")
  else .ok ((importKeys base current).filterMap (diffOp base current))

/-- What an import is asked for. -/
structure LegacyImport where
  /-- The document that the draft was begun with. -/
  base : JsValue
  /-- The document as it stands. -/
  current : JsValue
  /-- The name of the action. -/
  actionId : JsString
  /-- When the action is published. -/
  publishedAt : JsString
  /-- The actor. -/
  actor : DraftActionActor
  /-- The reason. -/
  reason : JsString

/-- The request that an import publishes. -/
def LegacyImport.request (input : LegacyImport) (operations : List JsValue) :
    PublishDraftActionInput :=
  { actionId := input.actionId
    channel := .import
    actor := input.actor
    operations
    expectedRevision := .zero
    publishedAt := input.publishedAt
    reason := some input.reason
    generation := none
    precondition := none
    targetRevision := none }

/-- `importLegacyDocument(input)`. -/
def importLegacyDocument (issueMessage : JsValue → JsString) (input : LegacyImport) :
    Except JsString PublishDraftActionResult := do
  let operations ← diffSetOps input.base input.current
  publishDraftAction issueMessage (createDraftActionLedger input.base) (input.request operations)

section

variable {issueMessage : JsValue → JsString} {base current m : Record JsValue}
  {key : JsString} {after : Option JsValue} {keys : List JsString} {doc value : JsValue}
  {ops : List JsValue}

/-! ## One write -/

/-- A write under a readable root key puts the value there or removes the key, and leaves the
other keys. -/
theorem applyStep_rootWrite (hkey : isReadable key = true) (after : Option JsValue)
    (m : Record JsValue) :
    ∃ m', applyStep issueMessage (rootWrite key after) (.obj m) = some (.obj m') ∧
      ∀ other, Record.get m' other = if other = key then after else Record.get m other := by
  have hne : quote key ≠ [] := List.cons_ne_nil _ _
  have hparse := tryParsePath_quote hkey
  cases after with
  | some value =>
    refine ⟨Record.setOwn m key value, ?_, fun other => Record.get_setOwn m key value other⟩
    change applyStep issueMessage (setValue (quote key) value) (.obj m) = _
    rw [applyStep_setValue hne hparse, setAtPath, parsePath_of_tryParsePath hparse,
      setAtPathSegments, deepClone_eq, deepClone_eq]
    rfl
  | none =>
    have hpath : textField [(js "path", JsValue.str (quote key))] "path" = quote key := rfl
    change ∃ m', applyStep issueMessage (unsetKey (quote key)) (.obj m) = _ ∧ _
    rw [applyStep_unsetKey hne hparse]
    unfold unsetHandler
    simp only [hpath, parsePath_of_tryParsePath hparse, List.getLast?_singleton,
      List.dropLast_singleton, resolvePathSegments_nil]
    cases hget : Record.get m key with
    | none =>
      have hresolve : resolvePathSegments (.obj m) [.key key] = none := by
        simp [resolvePathSegments, PathSegment.select, hget]
      refine ⟨m, ?_, fun other => ?_⟩
      · rw [deleteAtPathSegments, if_pos (.inr hresolve), deepClone_eq]
        rfl
      · split_ifs with hother
        · rw [hother, hget]
        · rfl
    | some value =>
      have hresolve : resolvePathSegments (.obj m) [.key key] = some value := by
        simp [resolvePathSegments, PathSegment.select, hget]
      refine ⟨Record.erase m key, ?_, fun other => Record.get_erase m key other⟩
      rw [deleteAtPathSegments, if_neg (by simp [hresolve]), deepClone_eq]
      simp [deleteRecursive, PathSegment.select, PathSegment.remove, hget, Except.toOption]

/-- A write under another root key is refused. -/
theorem applyStep_rootWrite_eq_none (hkey : isReadable key = false) (after : Option JsValue)
    (doc : JsValue) : applyStep issueMessage (rootWrite key after) doc = none := by
  obtain ⟨e, he⟩ := tryParsePath_quote_error hkey
  have hrefused : ∀ {spec : OpSpec} {payload : Record JsValue},
      Fits sourceSchema [(js spec.name, .obj payload)] spec payload →
      quote key ∈ pathTexts spec payload →
      applyStep issueMessage (.obj [(js spec.name, .obj payload)]) doc = none := by
    intro spec payload hfits hpath
    by_contra hsome
    obtain ⟨next, hnext⟩ := Option.ne_none_iff_exists'.mp hsome
    have hparse := (hfits.handler_of_applyStep hnext).1 _ hpath
    rw [he] at hparse
    cases hparse
  have hpath : pathSchema (.str (quote key)) = true := pathSchema_str (List.cons_ne_nil _ _)
  cases after with
  | some value =>
    have hzip := List.mem_of_getElem? (l := operations.zip (payloadFields.map Prod.snd)) (i := 3)
      rfl
    have hfits : ∀ hcheck, Fits sourceSchema _ _ [(js "path", .str (quote key)),
        (js "value", value)] := fun hcheck => fits_singleton hzip hcheck rfl
    refine hrefused (hfits ?_) ?_
    · change (pathSchema (.str (quote key)) && (yValueSchema value && true)) = true
      rw [hpath, yValueSchema_eq_true, Bool.and_true, Bool.and_true]
    · exact List.mem_filterMap.mpr ⟨"path", List.mem_singleton.mpr rfl, rfl⟩
  | none =>
    have hzip := List.mem_of_getElem? (l := operations.zip (payloadFields.map Prod.snd)) (i := 4)
      rfl
    have hfits : ∀ hcheck, Fits sourceSchema _ _ [(js "path", .str (quote key))] :=
      fun hcheck => fits_singleton hzip hcheck rfl
    refine hrefused (hfits ?_) ?_
    · change (pathSchema (.str (quote key)) && true) = true
      rw [hpath, Bool.and_true]
    · exact List.mem_filterMap.mpr ⟨"path", List.mem_singleton.mpr rfl, rfl⟩

/-! ## The run of the writes -/

/-- The readings of two documents at the JSON text of a root key differ. -/
def ReadsApart (base current : Record JsValue) (key : JsString) : Prop :=
  readingsEqual (mappingGet (.obj base) (quote key)) (mappingGet (.obj current) (quote key)) = false

/-- Writes under readable keys put what the current document reads there, and leave the other
keys. -/
theorem run_diffOps (h : ∀ key ∈ keys, ReadsApart base current key → isReadable key = true)
    (m : Record JsValue) :
    ∃ m', run (applyStep issueMessage) (.obj m)
        (keys.filterMap (diffOp (.obj base) (.obj current))) = some (.obj m') ∧
      ∀ other, (other ∈ keys ∧ ReadsApart base current other →
          Record.get m' other = mappingGet (.obj current) (quote other)) ∧
        (¬ (other ∈ keys ∧ ReadsApart base current other) →
          Record.get m' other = Record.get m other) := by
  induction keys generalizing m with
  | nil => exact ⟨m, rfl, fun other => ⟨fun h => absurd h.1 List.not_mem_nil, fun _ => rfl⟩⟩
  | cons key keys ih =>
    obtain ⟨hkey, hkeys⟩ := List.forall_mem_cons.mp h
    by_cases hapart : ReadsApart base current key
    · obtain ⟨m₁, hstep, hm₁⟩ : ∃ m₁, applyStep issueMessage
          (rootWrite key (mappingGet (.obj current) (quote key))) (.obj m) = some (.obj m₁) ∧ _ :=
        applyStep_rootWrite (hkey hapart) (mappingGet (.obj current) (quote key)) m
      obtain ⟨m₂, hrun, hm₂⟩ := ih hkeys m₁
      have hop : diffOp (.obj base) (.obj current) key =
          some (rootWrite key (mappingGet (.obj current) (quote key))) :=
        if_neg (by rw [hapart]; exact Bool.false_ne_true)
      refine ⟨m₂, ?_, fun other => ⟨fun hother => ?_, fun hother => ?_⟩⟩
      · rw [List.filterMap_cons_some hop, run_cons, hstep]
        exact hrun
      · by_cases hmem : other ∈ keys
        · exact (hm₂ other).1 ⟨hmem, hother.2⟩
        · obtain rfl : other = key := (List.mem_cons.mp hother.1).resolve_right hmem
          rw [(hm₂ other).2 fun h => hmem h.1, hm₁, if_pos rfl]
      · have hne : other ≠ key := by
          rintro rfl
          exact hother ⟨List.mem_cons_self, hapart⟩
        rw [(hm₂ other).2 fun h => hother ⟨List.mem_cons_of_mem _ h.1, h.2⟩, hm₁, if_neg hne]
    · obtain ⟨m', hrun, hm'⟩ := ih hkeys m
      have hop : diffOp (.obj base) (.obj current) key = none :=
        if_pos (Bool.eq_true_of_not_eq_false hapart)
      refine ⟨m', ?_, fun other => ⟨fun hother => ?_, fun hother => ?_⟩⟩
      · rw [List.filterMap_cons_none hop]
        exact hrun
      · have hmem : other ∈ keys := by
          refine (List.mem_cons.mp hother.1).resolve_left ?_
          rintro rfl
          exact hapart hother.2
        exact (hm' other).1 ⟨hmem, hother.2⟩
      · exact (hm' other).2 fun h => hother ⟨List.mem_cons_of_mem _ h.1, h.2⟩

/-- A write under a key that is not readable ends the run. -/
theorem run_diffOps_eq_none
    (h : ∃ key ∈ keys, ReadsApart base current key ∧ isReadable key = false) (doc : JsValue) :
    run (applyStep issueMessage) doc
      (keys.filterMap (diffOp (.obj base) (.obj current))) = none := by
  obtain ⟨key, hmem, hapart, hkey⟩ := h
  obtain ⟨before, rest, rfl⟩ := List.append_of_mem hmem
  have hop : diffOp (.obj base) (.obj current) key =
      some (rootWrite key (mappingGet (.obj current) (quote key))) :=
    if_neg (by rw [hapart]; exact Bool.false_ne_true)
  rw [List.filterMap_append, List.filterMap_cons_some hop, run_append]
  refine Option.bind_eq_none_iff.mpr fun reached _ => ?_
  rw [run_cons, applyStep_rootWrite_eq_none hkey]
  rfl

/-! ## Publishing on a new ledger -/

/-- A write has no source. -/
theorem hasOwnSource_rootWrite (key : JsString) (after : Option JsValue) :
    hasOwnSource (rootWrite key after) = .ok false := by
  cases after <;> rfl

/-- No operation of an import has a source. -/
theorem anyM_hasOwnSource_diffOps (base current : JsValue) (keys : List JsString) :
    (keys.filterMap (diffOp base current)).anyM hasOwnSource = .ok false := by
  have hall : ∀ ops : List JsValue, (∀ op ∈ ops, hasOwnSource op = .ok false) →
      ops.anyM hasOwnSource = .ok false := by
    intro ops hops
    induction ops with
    | nil => rfl
    | cons op ops ih =>
      obtain ⟨hop, hrest⟩ := List.forall_mem_cons.mp hops
      rw [List.anyM, hop]
      exact ih hrest
  refine hall _ fun op hop => ?_
  obtain ⟨key, -, hkey⟩ := List.mem_filterMap.mp hop
  unfold diffOp at hkey
  split_ifs at hkey
  obtain rfl := Option.some.inj hkey
  exact hasOwnSource_rootWrite _ _

/-- A request on a new ledger is new and for the current revision. -/
theorem publishDraftAction_create (input : LegacyImport) (ops : List JsValue) :
    publishDraftAction issueMessage (createDraftActionLedger input.base) (input.request ops) =
      publishNew issueMessage (createDraftActionLedger input.base) (input.request ops) := by
  have hzero : isRevision .zero 0 = true :=
    decide_eq_true (by simp [JsNumber.toRat, JsNumber.magnitude, JsNumber.zero])
  change (if isRevision .zero 0 = false then _ else _) = _
  rw [hzero]
  exact if_neg (by simp)

/-- The document of a new ledger is its base. -/
theorem currentComposition_create (base : JsValue) :
    currentComposition issueMessage (createDraftActionLedger base) = .ok base := rfl

/-- What an import gives whose operations fail. -/
theorem publishNew_of_run_eq_none (input : LegacyImport)
    (hsource : ops.anyM hasOwnSource = .ok false)
    (hrun : run (applyStep issueMessage) input.base ops = none) :
    ∃ message, publishNew issueMessage (createDraftActionLedger input.base) (input.request ops) =
      .ok ⟨.rejected .applyFailed message, createDraftActionLedger input.base⟩ := by
  have happly : ∃ message, applyDraftYOps issueMessage input.base ops = .error message := by
    cases happly : applyDraftYOps issueMessage input.base ops with
    | error message => exact ⟨message, rfl⟩
    | ok next =>
      rw [applyDraftYOps_eq_ok_iff.mp happly] at hrun
      cases hrun
  obtain ⟨message, hmessage⟩ := happly
  refine ⟨message, ?_⟩
  unfold publishNew
  rw [show (input.request ops).operations = ops from rfl, hsource, currentComposition_create]
  simp only [bind, Except.bind, hmessage]
  rfl

/-- What an import gives whose operations lead to a document: the document, or nothing new. -/
theorem publishNew_of_run_eq_some (input : LegacyImport)
    (hsource : ops.anyM hasOwnSource = .ok false)
    (hrun : run (applyStep issueMessage) input.base ops = some doc) :
    ∃ result,
      publishNew issueMessage (createDraftActionLedger input.base) (input.request ops) =
        .ok result ∧
      ((∃ action, result.answer = .published action) ∧
          currentComposition issueMessage result.ledger = .ok doc ∨
        (∃ receipt, result.answer = .noChange receipt) ∧
          currentComposition issueMessage result.ledger = .ok input.base ∧
          JsValue.Same input.base doc) := by
  have happly := applyDraftYOps_eq_ok_iff.mpr hrun
  obtain ⟨lineage, hlineage⟩ := exists_nextLineageFrom 1 0
    (createDraftActionLedger input.base).lineage hrun
  unfold publishNew
  rw [show (input.request ops).operations = ops from rfl, hsource, currentComposition_create]
  simp only [bind, Except.bind, happly]
  have hnext : nextLineage issueMessage (createDraftActionLedger input.base).lineage ops input.base
      ((createDraftActionLedger input.base).compositionRevision + 1) = .ok lineage := hlineage
  rw [hnext, if_neg Bool.false_ne_true]
  simp only
  split_ifs with hunchanged
  · refine ⟨_, rfl, .inr ⟨⟨_, rfl⟩, rfl, ?_⟩⟩
    exact canonicalKey_eq_iff.mp (of_decide_eq_true hunchanged.1)
  · refine ⟨_, rfl, .inl ⟨⟨_, rfl⟩, ?_⟩⟩
    have hreplay : replayActions issueMessage 1 input.base
        [actionRecord (createDraftActionLedger input.base) (input.request ops)] = .ok doc := by
      unfold replayActions
      have hlast : ¬ 1 <
          (actionRecord (createDraftActionLedger input.base) (input.request ops)).afterRevision :=
        lt_irrefl 1
      rw [if_neg hlast]
      have hops : (actionRecord (createDraftActionLedger input.base)
          (input.request ops)).operations = ops := rfl
      rw [hops, happly]
      rfl
    exact hreplay

/-! ## Complete imports -/

/-- The import gives a ledger whose document is the current one up to the order of members, by
an action, or by a receipt if the base is that document already. -/
def ImportComplete (issueMessage : JsValue → JsString) (input : LegacyImport) : Prop :=
  ∃ result, importLegacyDocument issueMessage input = .ok result ∧
    ((∃ action, result.answer = .published action) ∨
      (∃ receipt, result.answer = .noChange receipt) ∧ JsValue.Same input.base input.current) ∧
    ∃ doc, currentComposition issueMessage result.ledger = .ok doc ∧
      JsValue.Same doc input.current

/-- The pieces into which the JSON text of a root key falls at its slashes. -/
def quotedPieces (key : JsString) : List PathSegment :=
  (split (unit '/') (quote key)).map classifyRawSegment

/-- The documents have the same value under a root key and at the pieces of its JSON text. -/
structure Untouched (base current : Record JsValue) (key : JsString) : Prop where
  /-- The value under the key. -/
  value : ReadsAlike base current key
  /-- The value at the pieces. -/
  pieces : readingsEqual (resolvePathSegments (.obj base) (quotedPieces key))
    (resolvePathSegments (.obj current) (quotedPieces key)) = true

/-- Two readings are equal if both are absent or the values are equal up to the order of
members. -/
theorem readingsEqual_iff {left right : Option JsValue} :
    readingsEqual left right = true ↔ left.map (JsValue.denote JsNumber.dropZeroSign) =
      right.map (JsValue.denote JsNumber.dropZeroSign) := by
  cases left with
  | none => cases right <;> simp [readingsEqual]
  | some left =>
    cases right with
    | none => simp [readingsEqual]
    | some right =>
      simp only [readingsEqual, yValuesEqual, decide_eq_true_eq, Option.map_some,
        Option.some.injEq]
      exact canonicalKey_eq_iff

/-- At the JSON text of a readable root key is the member under the key. -/
theorem mappingGet_quote (hkey : isReadable key = true) (members : Record JsValue) :
    mappingGet (.obj members) (quote key) = Record.get members key := by
  rw [mappingGet, resolvePath, parsePath_quote_of_isReadable hkey]
  cases hget : Record.get members key <;> simp [resolvePathSegments, PathSegment.select, hget]

/-- A readable root key reads apart exactly if the values under it differ. -/
theorem readsApart_iff_of_isReadable (hkey : isReadable key = true) :
    ReadsApart base current key ↔ ¬ ReadsAlike base current key := by
  rw [ReadsApart, mappingGet_quote hkey, mappingGet_quote hkey, ← Bool.not_eq_true,
    readingsEqual_iff]
  rfl

/-- Another root key reads apart exactly if the values at its pieces differ. -/
theorem readsApart_iff_of_not_isReadable (hkey : isReadable key = false) :
    ReadsApart base current key ↔ ¬ readingsEqual
      (resolvePathSegments (.obj base) (quotedPieces key))
      (resolvePathSegments (.obj current) (quotedPieces key)) = true := by
  rw [ReadsApart, mappingGet, mappingGet, resolvePath, resolvePath,
    parsePath_quote_of_not_isReadable hkey, Bool.not_eq_true]
  rfl

/-- The keys of an import are the root keys of both documents. -/
theorem mem_importKeys :
    key ∈ importKeys (.obj base) (.obj current) ↔
      Record.has base key = true ∨ Record.has current key = true := by
  have hfold : ∀ more keys : List JsString,
      key ∈ more.foldl (fun keys k => if k ∈ keys then keys else keys ++ [k]) keys ↔
        key ∈ more ∨ key ∈ keys := by
    intro more
    induction more with
    | nil => intro keys; simp
    | cons k more ih =>
      intro keys
      rw [List.foldl_cons, ih]
      split_ifs with hk
      · rw [List.mem_cons, or_assoc]
        exact ⟨.inr, fun h => h.elim (fun heq => .inr (heq ▸ hk)) id⟩
      · simp only [List.mem_append, List.mem_cons, List.not_mem_nil, or_false]
        tauto
  rw [importKeys, hfold, mappingKeys, mappingKeys, Record.mem_keys, Record.mem_keys]

/-- Writes under readable keys lead to the current document exactly if the other keys have the
same values in both documents. -/
theorem same_iff_untouched {m' : Record JsValue}
    (hreadable : ∀ key ∈ importKeys (.obj base) (.obj current), ReadsApart base current key →
      isReadable key = true)
    (hm' : ∀ other, (other ∈ importKeys (.obj base) (.obj current) ∧
        ReadsApart base current other →
          Record.get m' other = mappingGet (.obj current) (quote other)) ∧
      (¬ (other ∈ importKeys (.obj base) (.obj current) ∧ ReadsApart base current other) →
        Record.get m' other = Record.get base other)) :
    JsValue.Same (.obj m') (.obj current) ↔
      ∀ key, Record.has base key = true ∨ Record.has current key = true →
        isReadable key = true ∨ Untouched base current key := by
  rw [JsValue.Same, JsValue.denote_obj_eq_iff]
  constructor
  · intro hsame key hkey
    cases hread : isReadable key with
    | true => exact .inl rfl
    | false =>
      have hapart : ¬ ReadsApart base current key := by
        intro hapart
        rw [hreadable key (mem_importKeys.mpr hkey) hapart] at hread
        cases hread
      have hvalue := hsame key
      rw [(hm' key).2 fun h => hapart h.2] at hvalue
      exact .inr ⟨hvalue, not_not.mp ((readsApart_iff_of_not_isReadable hread).not.mp hapart)⟩
  · intro huntouched key
    by_cases hkey : Record.has base key = true ∨ Record.has current key = true
    · by_cases hapart : ReadsApart base current key
      · have hread := hreadable key (mem_importKeys.mpr hkey) hapart
        rw [(hm' key).1 ⟨mem_importKeys.mpr hkey, hapart⟩, mappingGet_quote hread]
      · rw [(hm' key).2 fun h => hapart h.2]
        rcases huntouched key hkey with hread | hsame
        · exact not_not.mp ((readsApart_iff_of_isReadable hread).not.mp hapart)
        · exact hsame.value
    · rw [(hm' key).2 fun h => hkey (mem_importKeys.mp h.1)]
      rw [not_or, Bool.not_eq_true, Bool.not_eq_true] at hkey
      rw [Record.has_eq_false.mp hkey.1, Record.has_eq_false.mp hkey.2]

/-- An import whose operations lead to a document is complete exactly if it is the current one. -/
theorem importComplete_of_run {input : LegacyImport} {doc : JsValue}
    (hdiff : diffSetOps input.base input.current = .ok ops)
    (hsource : ops.anyM hasOwnSource = .ok false)
    (hrun : run (applyStep issueMessage) input.base ops = some doc) :
    ImportComplete issueMessage input ↔ JsValue.Same doc input.current := by
  obtain ⟨result, hresult, hanswer⟩ := publishNew_of_run_eq_some input hsource hrun
  have himport : importLegacyDocument issueMessage input = .ok result := by
    rw [importLegacyDocument, hdiff, ← hresult]
    exact publishDraftAction_create input ops
  constructor
  · rintro ⟨result', hresult', -, final, hfinal, hsame⟩
    obtain rfl := Except.ok.inj (himport.symm.trans hresult')
    rcases hanswer with ⟨-, hcurrent⟩ | ⟨-, hcurrent, hunchanged⟩
    · obtain rfl := Except.ok.inj (hcurrent.symm.trans hfinal)
      exact hsame
    · obtain rfl := Except.ok.inj (hcurrent.symm.trans hfinal)
      exact Eq.trans (Eq.symm hunchanged) hsame
  · intro hsame
    rcases hanswer with ⟨hpublished, hcurrent⟩ | ⟨hnoted, hcurrent, hunchanged⟩
    · exact ⟨result, himport, .inl hpublished, doc, hcurrent, hsame⟩
    · have hbase : JsValue.Same input.base input.current := Eq.trans hunchanged hsame
      exact ⟨result, himport, .inr ⟨hnoted, hbase⟩, input.base, hcurrent, hbase⟩

/-- An import whose operations fail is not complete. -/
theorem not_importComplete_of_run {input : LegacyImport}
    (hdiff : diffSetOps input.base input.current = .ok ops)
    (hsource : ops.anyM hasOwnSource = .ok false)
    (hrun : run (applyStep issueMessage) input.base ops = none) :
    ¬ ImportComplete issueMessage input := by
  obtain ⟨message, hmessage⟩ := publishNew_of_run_eq_none input hsource hrun
  have himport : importLegacyDocument issueMessage input =
      .ok ⟨.rejected .applyFailed message, createDraftActionLedger input.base⟩ := by
    rw [importLegacyDocument, hdiff, ← hmessage]
    exact publishDraftAction_create input ops
  rintro ⟨result, hresult, hanswer, -⟩
  obtain rfl := Except.ok.inj (himport.symm.trans hresult)
  rcases hanswer with ⟨action, haction⟩ | ⟨⟨receipt, hreceipt⟩, -⟩
  · cases haction
  · cases hreceipt

/-- An import is complete exactly if every root key is readable or has the same values in both
documents, under the key and at the pieces of its JSON text. -/
theorem importComplete_iff (issueMessage : JsValue → JsString) (base current : Record JsValue)
    (actionId publishedAt : JsString) (actor : DraftActionActor) (reason : JsString) :
    ImportComplete issueMessage
        ⟨.obj base, .obj current, actionId, publishedAt, actor, reason⟩ ↔
      ∀ key, Record.has base key = true ∨ Record.has current key = true →
        isReadable key = true ∨ Untouched base current key := by
  have hdiff : diffSetOps (.obj base) (.obj current) = .ok
      ((importKeys (.obj base) (.obj current)).filterMap (diffOp (.obj base) (.obj current))) :=
    if_neg (by simp [isMapping])
  have hsource := anyM_hasOwnSource_diffOps (.obj base) (.obj current)
    (importKeys (.obj base) (.obj current))
  by_cases hreadable : ∀ key ∈ importKeys (.obj base) (.obj current),
      ReadsApart base current key → isReadable key = true
  · obtain ⟨m', hrun, hm'⟩ : ∃ m', run (applyStep issueMessage) (.obj base) _ = some (.obj m') ∧
        _ := run_diffOps hreadable base
    exact (importComplete_of_run hdiff hsource hrun).trans (same_iff_untouched hreadable hm')
  · push Not at hreadable
    obtain ⟨key, hmem, hapart, hunread⟩ := hreadable
    have hread : isReadable key = false := Bool.eq_false_of_not_eq_true hunread
    have hrun : run (applyStep issueMessage) (.obj base) _ = none :=
      run_diffOps_eq_none ⟨key, hmem, hapart, hread⟩ (.obj base)
    refine iff_of_false (not_importComplete_of_run hdiff hsource hrun) fun huntouched => ?_
    rcases huntouched key (mem_importKeys.mp hmem) with h | h
    · exact hunread h
    · exact (readsApart_iff_of_not_isReadable hread).mp hapart h.pieces

/-- A value that changes under a key with a line break is skipped: the import notes that nothing
has changed. -/
theorem not_importComplete_brokenKey :
    ¬ ImportComplete (fun _ => [])
      ⟨.obj [(js "a\nb", .bool false)], .obj [(js "a\nb", .bool true)], js "import-1",
        js "2026-01-01T00:00:00Z", ⟨.service, js "importer", none⟩, js "legacy"⟩ := by
  have hdiff : diffSetOps (.obj [(js "a\nb", .bool false)]) (.obj [(js "a\nb", .bool true)]) =
      .ok [] := by decide
  intro h
  have hsame := (importComplete_of_run hdiff rfl rfl).mp h
  have hread := (JsValue.denote_obj_eq_iff.mp hsame) (js "a\nb")
  simp [Record.get] at hread

end

end T3x.Drafts
