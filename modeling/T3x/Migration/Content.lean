import T3x.Drafts.Addressing
import T3x.Migration.SemanticResult
import T3x.Yops.Roots
import T3x.Yschema.Schema

/-!
# Migrating content under a new schema

Content edits that a user confirmed are compiled to operations of the native engine. The
first operation asserts what stands under the root; the others are edits of paths that
begin with it. So a migration changes nothing outside the root, and its operations are
refused where the root has another value. A semantic document is migrated under its
content.
-/

namespace T3x.Migration

open Js T3x.Drafts T3x.Run T3x.Yops T3x.Yschema

/-! ## Commands -/

/-- `SchemaContentMigrationCommand`. -/
inductive SchemaContentMigrationCommand where
  | set (path : JsString) (value : JsValue)
  | append (path : JsString) (value : JsValue)
  | remove (path : JsString)
  | move (source target : JsString)
  | renameNode (path toKey : JsString)

/-- What a migration gives. -/
structure ContentMigration where
  /-- The operations. -/
  operations : List JsValue
  /-- The document after them. -/
  document : JsValue

/-- `document.domain === 't3x.dev/semantic-content'`. -/
def isSemanticDocument : JsValue → Bool
  | .obj members => decide (Record.get members (js "domain") =
      some (.str (js "t3x.dev/semantic-content")))
  | _ => false

/-- The root of a migration: the content of a semantic document, else the key. -/
def migrationRoot (document : JsValue) (rootKey : JsString) : JsString :=
  if isSemanticDocument document then js "content" else rootKey

/-- The keys that would reach a prototype. -/
def reservedKeys : List JsString := [js "__proto__", js "prototype", js "constructor"]

/-- Whether a segment is a key that is empty or reserved. -/
def isForbidden : PathSegment → Bool
  | .key value => decide (value = [] ∨ value ∈ reservedKeys)
  | _ => false

/-- `check(path)`. -/
def check (root path : JsString) : Except JsString Unit :=
  if (parsePath path).head? ≠ some (.key root) ∨ (parsePath path).any isForbidden then
    .error (js "Migration path must stay inside " ++ root ++ js ": " ++ path)
  else .ok ()

/-- Whether there is a node that can be renamed. -/
def isRenamable : Option JsValue → Bool
  | some (.obj members) =>
    match Record.get members (js "key"), Record.get members (js "children") with
    | some (.str _), some (.arr _) => true
    | _, _ => false
  | _ => false

/-- `{ append: { path, value } }`. -/
def appendValue (path : JsString) (value : JsValue) : JsValue :=
  .obj [(js "append", .obj [(js "path", .str path), (js "value", value)])]

/-- `{ drop: { path } }`. -/
def dropAt (path : JsString) : JsValue := .obj [(js "drop", .obj [(js "path", .str path)])]

/-- `{ move: { from, to } }`. -/
def moveTo (source target : JsString) : JsValue :=
  .obj [(js "move", .obj [(js "from", .str source), (js "to", .str target)])]

/-- The operation for a command, on the document so far. -/
def editOf (semantic : Bool) (root : JsString) (result : JsValue) :
    SchemaContentMigrationCommand → Except JsString JsValue
  | .move source target => do
    check root source
    check root target
    return moveTo source target
  | .renameNode path toKey => do
    check root path
    if semantic = false ∨ isKey toKey = false then
      throw (js "rename_node requires a semantic node and a valid Schema key.")
    if isRenamable (resolvePath result path) = false then
      throw (js "Select an existing semantic node to rename.")
    return setValue (path ++ js "/key") (.str toKey)
  | .remove path => do
    check root path
    match (parsePath path).getLast? with
    | some (.key _) => return unsetKey path
    | _ => return dropAt path
  | .set path value => do
    check root path
    return setValue path value
  | .append path value => do
    check root path
    return appendValue path value

/-- The document after the operations, or the message that is thrown. -/
def applied (issueMessage : JsValue → JsString) (fallback : String) (document : JsValue)
    (operations : List JsValue) : Except JsString JsValue :=
  let result := applyYOps issueMessage document operations
  if result.ok then .ok result.doc
  else .error ((result.error.map YopsError.message).getD (js fallback))

/-- One command: the document after it and the operations with its own. -/
def compileCommand (issueMessage : JsValue → JsString) (semantic : Bool) (root : JsString)
    (state : JsValue × List JsValue) (command : SchemaContentMigrationCommand) :
    Except JsString (JsValue × List JsValue) := do
  let edit ← editOf semantic root state.1 command
  let result ← applied issueMessage "Content migration failed." state.1 [edit]
  return (result, state.2 ++ [edit])

/-- The assertion of what stands under the root. -/
def guardOf (root : JsString) (value : Option JsValue) : JsValue :=
  value.elim (assertAbsent (quote root)) (assertEquals (quote root))

/-- `compileSchemaContentMigration(document, rootKey, commands)`. -/
def compileSchemaContentMigration (issueMessage : JsValue → JsString) (document : JsValue)
    (rootKey : JsString) (commands : List SchemaContentMigrationCommand) :
    Except JsString ContentMigration :=
  if isMapping document = false then
    .error (js "Schema migration requires a mapping document.")
  else do
    let semantic := isSemanticDocument document
    let root := migrationRoot document rootKey
    let compiled ← commands.foldlM (compileCommand issueMessage semantic root)
      (document, [guardOf root (memberAt document root)])
    let replay ← applied issueMessage "Content migration replay failed." document compiled.2
    if semantic then assertSemanticResult replay rootKey
    return { operations := compiled.2, document := replay }

/-! ## The edits -/

/-- The path begins with the root. -/
def StartsAt (root path : JsString) : Prop :=
  ∃ segments, parsePath path = .key root :: segments

/-- An edit of paths that begin with the root. The key of a node is reached by a longer path. -/
inductive IsEdit (root : JsString) : JsValue → Prop
  | set {path : JsString} (value : JsValue) (h : StartsAt root path) :
      IsEdit root (setValue path value)
  | append {path : JsString} (value : JsValue) (h : StartsAt root path) :
      IsEdit root (appendValue path value)
  | unset {path : JsString} (h : StartsAt root path) : IsEdit root (unsetKey path)
  | drop {path : JsString} (h : StartsAt root path) : IsEdit root (dropAt path)
  | move {source target : JsString} (hsource : StartsAt root source)
      (htarget : StartsAt root target) : IsEdit root (moveTo source target)
  | rename {path : JsString} (toKey : JsString) (hroot : root = js "content")
      (h : StartsAt root path) : IsEdit root (setValue (path ++ js "/key") (.str toKey))

variable {issueMessage : JsValue → JsString} {document doc next : JsValue}
  {root rootKey path key : JsString} {commands : List SchemaContentMigrationCommand}
  {semantic : Bool} {ops edits : List JsValue} {op : JsValue}

/-- A path that passes the check begins with the root. -/
theorem startsAt_of_check (h : check root path = .ok ()) : StartsAt root path := by
  unfold check at h
  split_ifs at h with hcond
  rw [not_or, not_not] at hcond
  cases hsegments : parsePath path with
  | nil =>
    rw [hsegments] at hcond
    cases hcond.1
  | cons segment segments =>
    rw [hsegments] at hcond
    obtain rfl := Option.some.inj hcond.1
    exact ⟨segments, hsegments⟩

/-- The operation for a command is an edit at the root. -/
theorem isEdit_of_editOf {command : SchemaContentMigrationCommand}
    (hroot : semantic = true → root = js "content")
    (h : editOf semantic root doc command = .ok op) : IsEdit root op := by
  cases command with
  | set path value =>
    obtain ⟨⟨⟩, hcheck, h⟩ := bind_eq_ok_iff.mp h
    obtain rfl := Except.ok.inj h
    exact .set value (startsAt_of_check hcheck)
  | append path value =>
    obtain ⟨⟨⟩, hcheck, h⟩ := bind_eq_ok_iff.mp h
    obtain rfl := Except.ok.inj h
    exact .append value (startsAt_of_check hcheck)
  | remove path =>
    obtain ⟨⟨⟩, hcheck, h⟩ := bind_eq_ok_iff.mp h
    split at h
    · obtain rfl := Except.ok.inj h
      exact .unset (startsAt_of_check hcheck)
    · obtain rfl := Except.ok.inj h
      exact .drop (startsAt_of_check hcheck)
  | move source target =>
    obtain ⟨⟨⟩, hsource, h⟩ := bind_eq_ok_iff.mp h
    obtain ⟨⟨⟩, htarget, h⟩ := bind_eq_ok_iff.mp h
    obtain rfl := Except.ok.inj h
    exact .move (startsAt_of_check hsource) (startsAt_of_check htarget)
  | renameNode path toKey =>
    obtain ⟨⟨⟩, hcheck, h⟩ := bind_eq_ok_iff.mp h
    obtain ⟨hkey, h⟩ := throw_else_eq_ok_iff.mp h
    obtain ⟨hnode, h⟩ := throw_else_eq_ok_iff.mp h
    obtain rfl := Except.ok.inj h
    have hsemantic : semantic = true := by
      cases semantic with
      | true => rfl
      | false => exact absurd (.inl rfl) hkey
    exact .rename toKey (hroot hsemantic) (startsAt_of_check hcheck)

/-- The operations of a migration are the guard and then edits at the root. -/
theorem edits_of_foldlM {state final : JsValue × List JsValue}
    (hroot : semantic = true → root = js "content")
    (h : commands.foldlM (compileCommand issueMessage semantic root) state = .ok final) :
    ∃ edits, final.2 = state.2 ++ edits ∧ ∀ op ∈ edits, IsEdit root op := by
  induction commands generalizing state with
  | nil =>
    obtain rfl := Except.ok.inj h
    exact ⟨[], (List.append_nil _).symm, fun _ hmem => absurd hmem List.not_mem_nil⟩
  | cons command commands ih =>
    rw [List.foldlM_cons] at h
    obtain ⟨reached, hreached, hrest⟩ := bind_eq_ok_iff.mp h
    obtain ⟨edit, hedit, happly⟩ := bind_eq_ok_iff.mp hreached
    obtain ⟨result, -, hpair⟩ := bind_eq_ok_iff.mp happly
    obtain rfl := Except.ok.inj hpair
    obtain ⟨edits, hedits, hall⟩ := ih hrest
    refine ⟨edit :: edits, ?_, List.forall_mem_cons.mpr ⟨isEdit_of_editOf hroot hedit, hall⟩⟩
    rw [hedits, List.append_assoc, List.singleton_append]

/-! ## Outside the root -/

/-- The path begins with none of the other keys. -/
theorem StartsAt.rooted (h : StartsAt root path) (hkey : key ≠ root) :
    Rooted [key] (parsePath path) := by
  obtain ⟨segments, hsegments⟩ := h
  exact ⟨root, segments, hsegments, fun hmem => hkey (List.mem_singleton.mp hmem).symm⟩

/-- An edit that is applied keeps the members under other keys. -/
theorem IsEdit.keeps (h : IsEdit root op) (hstep : applyStep issueMessage op doc = some next)
    (hkey : key ≠ root) : Keeps [key] doc next := by
  cases h with
  | set value h =>
    obtain ⟨spec, handler, -, hhandler, -, hresult⟩ := handler_of_singleton (by decide) hstep
    obtain rfl := Option.some.inj hhandler
    exact keeps_setHandler (h.rooted hkey) _ hresult
  | append value h =>
    obtain ⟨spec, handler, -, hhandler, -, hresult⟩ := handler_of_singleton (by decide) hstep
    obtain rfl := Option.some.inj hhandler
    exact keeps_appendHandler (h.rooted hkey) _ hresult
  | unset h =>
    obtain ⟨spec, handler, -, hhandler, -, hresult⟩ := handler_of_singleton (by decide) hstep
    obtain rfl := Option.some.inj hhandler
    exact keeps_unsetHandler (h.rooted hkey) _ hresult
  | drop h =>
    obtain ⟨spec, handler, -, hhandler, -, hresult⟩ := handler_of_singleton (by decide) hstep
    obtain rfl := Option.some.inj hhandler
    exact keeps_dropHandler (h.rooted hkey) _ hresult
  | move hsource htarget =>
    obtain ⟨spec, handler, -, hhandler, -, hresult⟩ := handler_of_singleton (by decide) hstep
    obtain rfl := Option.some.inj hhandler
    exact keeps_moveHandler (hsource.rooted hkey) (htarget.rooted hkey) _ hresult
  | @rename path toKey hroot h =>
    obtain ⟨spec, handler, hspec, hhandler, hparses, hresult⟩ :=
      handler_of_singleton (by decide) hstep
    obtain rfl := Option.some.inj hhandler
    obtain rfl := Option.some.inj hspec
    have hmem : path ++ js "/key" ∈ pathTexts (pathOp "set" [{ name := "value", type := "any" }])
        [(js "path", .str (path ++ js "/key")), (js "value", .str toKey)] := by
      refine List.mem_filterMap.mpr ⟨"path", List.mem_singleton.mpr rfl, ?_⟩
      exact if_neg (List.append_ne_nil_of_right_ne_nil _ (by decide))
    obtain ⟨segments, hsegments⟩ := h
    have hhead : root.head? ≠ some (unit '"') := by
      rw [hroot]
      decide
    have hlonger : StartsAt root (path ++ js "/key") :=
      parsePath_longer (hparses _ hmem) hhead hsegments
    exact keeps_setHandler (hlonger.rooted hkey) _ hresult

/-- Edits that are applied one after the other keep the members under other keys. -/
theorem keeps_of_run (hedits : ∀ op ∈ edits, IsEdit root op)
    (hrun : run (applyStep issueMessage) doc edits = some next) (hkey : key ≠ root) :
    Keeps [key] doc next := by
  induction edits generalizing doc with
  | nil =>
    obtain rfl := Option.some.inj hrun
    exact Keeps.refl
  | cons op edits ih =>
    obtain ⟨hop, hrest⟩ := List.forall_mem_cons.mp hedits
    obtain ⟨reached, hreached, hrun⟩ := Option.bind_eq_some_iff.mp hrun
    exact (hop.keeps hreached hkey).trans (ih hrest hrun)

/-! ## The guard -/

/-- Two documents have the same value under a key, or none. -/
def SameUnder (key : JsString) (doc other : JsValue) : Prop :=
  (memberAt doc key).map (JsValue.denote JsNumber.dropZeroSign) =
    (memberAt other key).map (JsValue.denote JsNumber.dropZeroSign)

/-- At the JSON text of a readable key is the member under it. -/
theorem resolvePath_quote (hroot : isReadable root = true) (doc : JsValue) :
    resolvePath doc (quote root) = memberAt doc root := by
  have hkeys := resolvePathSegments_keys doc [root]
  rw [resolvePath, parsePath_quote_of_isReadable hroot]
  refine hkeys.trans ?_
  rw [Drafts.valueAt_cons]
  cases memberAt doc root <;> rfl

/-- A guard that passes is for a readable root. -/
theorem isReadable_of_guard {spec : OpSpec} {payload : Record JsValue}
    (hspec : getOpSpec (js "assert") = some spec)
    (hpath : Record.get payload (js "path") = some (.str (quote root)))
    (hparses : ∀ path ∈ pathTexts spec payload, (tryParsePath path).isOk) :
    isReadable root = true := by
  obtain rfl := Option.some.inj hspec
  have hmem := hparses (quote root) (List.mem_filterMap.mpr
    ⟨"path", List.mem_singleton.mpr rfl, by rw [hpath]; exact if_neg (List.cons_ne_nil _ _)⟩)
  by_contra hunread
  obtain ⟨e, he⟩ := tryParsePath_quote_error (Bool.eq_false_of_not_eq_true hunread)
  rw [he] at hmem
  cases hmem

/-- A guard that passes is for a readable root, under which the document has the value that is
asserted, and gives the document back. -/
theorem guard_of_applyStep {value : Option JsValue}
    (hstep : applyStep issueMessage (guardOf root value) doc = some next) :
    isReadable root = true ∧ next = doc ∧
      (memberAt doc root).map (JsValue.denote JsNumber.dropZeroSign) =
        value.map (JsValue.denote JsNumber.dropZeroSign) := by
  cases value with
  | none =>
    obtain ⟨spec, handler, hspec, hhandler, hparses, hresult⟩ :=
      handler_of_singleton (by decide) hstep
    obtain rfl := Option.some.inj hhandler
    have hroot := isReadable_of_guard hspec rfl hparses
    obtain ⟨⟨⟩, hexists, hresult⟩ := bind_eq_ok_iff.mp hresult
    obtain ⟨⟨⟩, -, hresult⟩ := bind_eq_ok_iff.mp hresult
    obtain ⟨⟨⟩, -, hresult⟩ := bind_eq_ok_iff.mp hresult
    refine ⟨hroot, (Except.ok.inj hresult).symm, ?_⟩
    have hpath : textField [(js "path", JsValue.str (quote root)), (js "exists", .bool false)]
        "path" = quote root := rfl
    rw [hpath, resolvePath_quote hroot] at hexists
    cases hmember : memberAt doc root with
    | none => rfl
    | some current =>
      rw [hmember] at hexists
      cases hexists
  | some value =>
    obtain ⟨spec, handler, hspec, hhandler, hparses, hresult⟩ :=
      handler_of_singleton (by decide) hstep
    obtain rfl := Option.some.inj hhandler
    have hroot := isReadable_of_guard hspec rfl hparses
    obtain ⟨⟨⟩, -, hresult⟩ := bind_eq_ok_iff.mp hresult
    obtain ⟨⟨⟩, hequals, hresult⟩ := bind_eq_ok_iff.mp hresult
    obtain ⟨⟨⟩, -, hresult⟩ := bind_eq_ok_iff.mp hresult
    refine ⟨hroot, (Except.ok.inj hresult).symm, ?_⟩
    have hpath : textField [(js "path", JsValue.str (quote root)), (js "equals", value)]
        "path" = quote root := rfl
    rw [hpath, resolvePath_quote hroot] at hequals
    cases hmember : memberAt doc root with
    | none =>
      rw [hmember] at hequals
      cases hequals
    | some current =>
      rw [hmember] at hequals
      obtain ⟨actual, hactual, hequals⟩ := bind_eq_ok_iff.mp hequals
      obtain rfl := Except.ok.inj hactual
      have hsame : canonicalKey current = canonicalKey value := by
        by_contra hne
        rw [if_pos hne] at hequals
        cases hequals
      exact congrArg some (canonicalKey_eq_iff.mp hsame)

/-! ## What a migration keeps -/

/-- A migration of a document that stays inside a root. -/
structure StaysInside (issueMessage : JsValue → JsString) (document : JsValue) (root : JsString)
    (migration : ContentMigration) : Prop where
  /-- The documents are mappings that differ under no other key. -/
  outside : ∃ members members', document = .obj members ∧ migration.document = .obj members' ∧
    ∀ key, key ≠ root → Record.get members' key = Record.get members key
  /-- The operations lead from the one to the other. -/
  replays : (applyYOps issueMessage document migration.operations).ok = true ∧
    (applyYOps issueMessage document migration.operations).doc = migration.document
  /-- They are refused on a document with another value under the root. -/
  guarded : ∀ other, ¬ SameUnder root document other →
    (applyYOps issueMessage other migration.operations).ok = false

/-- A migration that is applied gives the document of a run. -/
theorem applied_eq_ok_iff {fallback : String} :
    applied issueMessage fallback doc ops = .ok next ↔
      (applyYOps issueMessage doc ops).ok = true ∧ (applyYOps issueMessage doc ops).doc = next := by
  unfold applied
  simp only
  split_ifs with hok
  · exact ⟨fun h => ⟨hok, Except.ok.inj h⟩, fun h => congrArg _ h.2⟩
  · exact ⟨nofun, fun h => absurd h.1 hok⟩

/-- A migration stays inside its root: the root key, or the content of a semantic document. A
semantic document becomes a sound one. -/
theorem staysInside_of_compile (issueMessage : JsValue → JsString) (document : JsValue)
    (rootKey : JsString) (commands : List SchemaContentMigrationCommand)
    (migration : ContentMigration)
    (h : compileSchemaContentMigration issueMessage document rootKey commands = .ok migration) :
    StaysInside issueMessage document (migrationRoot document rootKey) migration ∧
      (isSemanticDocument document = true → ∃ trees relations,
        SemanticSound migration.document rootKey trees relations) := by
  unfold compileSchemaContentMigration at h
  split_ifs at h with hmapping
  obtain ⟨compiled, hcompiled, h⟩ := bind_eq_ok_iff.mp h
  obtain ⟨replay, hreplay, h⟩ := bind_eq_ok_iff.mp h
  obtain ⟨rfl, hassert⟩ : ⟨compiled.2, replay⟩ = migration ∧ (isSemanticDocument document = true →
      assertSemanticResult replay rootKey = .ok ()) := by
    cases hsemantic : isSemanticDocument document with
    | false =>
      rw [hsemantic] at h
      exact ⟨Except.ok.inj h, nofun⟩
    | true =>
      rw [hsemantic] at h
      obtain ⟨⟨⟩, hassert, h⟩ := bind_eq_ok_iff.mp h
      exact ⟨Except.ok.inj h, fun _ => hassert⟩
  have hroot : isSemanticDocument document = true →
      migrationRoot document rootKey = js "content" := fun hsemantic => if_pos hsemantic
  obtain ⟨edits, hops, hedits⟩ := edits_of_foldlM hroot hcompiled
  obtain ⟨hok, hdoc⟩ := applied_eq_ok_iff.mp hreplay
  have hguarded : ∀ other next, run (applyStep issueMessage) other compiled.2 = some next →
      SameUnder (migrationRoot document rootKey) document other ∧
        run (applyStep issueMessage) other edits = some next := by
    intro other next hrun
    rw [hops, List.singleton_append, run_cons] at hrun
    obtain ⟨reached, hreached, hrest⟩ := Option.bind_eq_some_iff.mp hrun
    obtain ⟨-, rfl, hsame⟩ := guard_of_applyStep hreached
    exact ⟨hsame.symm, hrest⟩
  have hrun := (hguarded document _ (run_of_applyYOps hok)).2
  constructor
  · refine
      { outside := ?_
        replays := ⟨hok, hdoc⟩
        guarded := fun other hother => ?_ }
    · obtain ⟨members, rfl⟩ : ∃ members, document = .obj members := by
        cases document with
        | obj members => exact ⟨members, rfl⟩
        | _ => exact absurd rfl hmapping
      have hfresh : migrationRoot (.obj members) rootKey ++ [0] ≠
          migrationRoot (.obj members) rootKey := by simp
      obtain ⟨members', hmembers', -⟩ := (keeps_of_run hedits hrun hfresh) members rfl
      refine ⟨members, members', rfl, hdoc.symm.trans hmembers', fun key hkey => ?_⟩
      obtain ⟨members'', hmembers'', hget⟩ := (keeps_of_run hedits hrun hkey) members rfl
      obtain rfl := JsValue.obj.inj (hmembers'.symm.trans hmembers'')
      exact hget key (List.mem_singleton.mpr rfl)
    · by_contra hsome
      exact hother (hguarded other _ (run_of_applyYOps (Bool.eq_true_of_not_eq_false hsome))).1
  · exact fun hsemantic => semanticSound_of_assert (hassert hsemantic)

/-- A semantic document without content. -/
def blankDocument : JsValue := .obj [(js "domain", .str (js "t3x.dev/semantic-content"))]

/-- Content without nodes and relations. -/
def blankContent : JsValue := .obj [(js "trees", .arr []), (js "relations", .arr [])]

/-- The migration that gives a semantic document its content. -/
def blankMigration : ContentMigration :=
  { operations := [assertAbsent (quote (js "content")), setValue (js "content") blankContent]
    document := .obj [(js "domain", .str (js "t3x.dev/semantic-content")),
      (js "content", blankContent)] }

/-- The migration is compiled from one command. -/
theorem compile_blankMigration :
    compileSchemaContentMigration (fun _ => []) blankDocument (js "billing")
      [.set (js "content") blankContent] = .ok blankMigration := by
  have hcommand : compileCommand (fun _ => []) true (js "content")
      (blankDocument, [assertAbsent (quote (js "content"))]) (.set (js "content") blankContent) =
        .ok (blankMigration.document, blankMigration.operations) := by decide +kernel
  have hreplay : applied (fun _ => []) "Content migration replay failed." blankDocument
      blankMigration.operations = .ok blankMigration.document := by decide +kernel
  have hassert : assertSemanticResult blankMigration.document (js "billing") = .ok () := by
    have hcontent : semanticContent blankMigration.document = some ([], []) := by decide
    unfold assertSemanticResult
    rw [hcontent]
    simp only [visitNodes]
    rfl
  have hsemantic : isSemanticDocument blankDocument = true := by decide
  have hroot : migrationRoot blankDocument (js "billing") = js "content" := if_pos hsemantic
  have hguard : guardOf (js "content") (memberAt blankDocument (js "content")) =
      assertAbsent (quote (js "content")) := by decide
  unfold compileSchemaContentMigration
  rw [if_neg (by decide)]
  simp only [hroot, hguard, hsemantic, List.foldlM_cons, hcommand, List.foldlM_nil, bind,
    Except.bind, pure, Except.pure, hreplay, hassert, if_true]

/-- It stays inside the content, and the document is sound. -/
theorem staysInside_blankMigration :
    StaysInside (fun _ => []) blankDocument (js "content") blankMigration ∧
      ∃ trees relations, SemanticSound blankMigration.document (js "billing") trees relations := by
  obtain ⟨hinside, hsound⟩ := staysInside_of_compile (fun _ => []) blankDocument (js "billing")
    [.set (js "content") blankContent] blankMigration compile_blankMigration
  exact ⟨hinside, hsound (by decide)⟩

/-- It does not stay inside the root key that it was compiled for. -/
theorem not_staysInside_rootKey :
    ∃ migration, compileSchemaContentMigration (fun _ => []) blankDocument (js "billing")
        [.set (js "content") blankContent] = .ok migration ∧
      ¬ StaysInside (fun _ => []) blankDocument (js "billing") migration := by
  refine ⟨blankMigration, compile_blankMigration, fun h => ?_⟩
  obtain ⟨members, members', hdocument, hmigrated, hget⟩ := h.outside
  obtain rfl := JsValue.obj.inj hdocument
  obtain rfl := JsValue.obj.inj hmigrated
  have hcontent := hget (js "content") (by decide)
  revert hcontent
  decide

end T3x.Migration
