import T3x.Repository.Promises

/-!
# Decisions, branches and commits

Decisions are recorded once. A branch starts at a member commit, and its head changes
only when a commit is created on it. What a commit was verified with is stored with it,
so that it is verified by the stored objects from then on.
-/

namespace T3x.Repository

open Js T3x.Transition T3x.Storage Interleave

variable {sha256 : List UInt8 → JsString} {entries : JsString → InsertYOpsLogInput}
  {session : ℕ} {projectId refName : JsString} {s t u : Store} {α : Type}

/-! ## Decisions -/

/-- Facts that are inserted are stored, at the end if their key was free. -/
theorem insertFacts_eq_ok {key : StoredDecisionFacts → StoredDecisionFacts → Bool}
    {conflict : JsString → StorageError} {facts : StoredDecisionFacts}
    {stored stored' : List StoredDecisionFacts}
    (h : insertFacts key conflict facts stored = .ok stored') : facts ∈ stored' ∧
      (stored' = stored ∨
        stored' = stored ++ [facts] ∧ ∀ row ∈ stored, ¬ key facts row = true) := by
  rw [insertFacts] at h
  cases hfind : stored.find? (key facts) with
  | none =>
    rw [hfind] at h
    obtain rfl := Except.ok.inj h
    exact ⟨List.mem_append_right _ (List.mem_singleton_self _),
      .inr ⟨rfl, List.find?_eq_none.mp hfind⟩⟩
  | some row =>
    rw [hfind] at h
    dsimp only at h
    split_ifs at h with hsame
    obtain rfl := Except.ok.inj h
    exact ⟨hsame ▸ List.mem_of_find?_eq_some hfind, .inl rfl⟩

/-- What is inserted is added. -/
theorem prefix_of_insertFacts {key : StoredDecisionFacts → StoredDecisionFacts → Bool}
    {conflict : JsString → StorageError} {facts : StoredDecisionFacts}
    {stored stored' : List StoredDecisionFacts}
    (h : insertFacts key conflict facts stored = .ok stored') : stored <+: stored' := by
  rcases (insertFacts_eq_ok h).2 with rfl | ⟨rfl, -⟩
  · exact List.prefix_rfl
  · exact List.prefix_append _ _

/-- Objects, records and authorizations are added. -/
theorem does_decisions {objects : List ObjectRow} {ledger authorizations : List StoredDecisionFacts}
    (hs : Consistent sha256 entries s) (hobjects : s.objects <+: objects)
    (hledger : s.ledger <+: ledger) (hauthorizations : s.authorizations <+: authorizations)
    (hunique : Table.Unique StoredDecisionFacts.decisionDigest ledger)
    (hrecorded : ∀ facts ∈ authorizations, facts ∈ ledger) :
    Does sha256 entries session s { s with
      objects := objects
      ledger := ledger
      authorizations := authorizations } := by
  have hkeeps : Keeps s { s with
      objects := objects
      ledger := ledger
      authorizations := authorizations } :=
    ⟨hobjects, List.prefix_rfl, hledger, hauthorizations, List.prefix_rfl, List.prefix_rfl, rfl⟩
  exact {
    consistent := {
      graph := hs.graph.keeps hkeeps rfl rfl rfl
      decisions := ⟨hunique, hrecorded⟩
      log := hs.log.keeps hkeeps rfl rfl
      locks := hs.locks }
    keeps := hkeeps
    refs := refsFollow_of_eq rfl rfl
    log := logFollows_of_eq hs.log.ids rfl
    spares := fun _ _ _ hheld => spares_of_eq hheld rfl rfl rfl }

/-- What the record of a Decision writes. -/
theorem recordDecisionLedger_eq_ok {record : RepositoryDecisionRecord}
    (hs : DecisionsSound s) (h : recordDecisionLedger sha256 record s = .ok t) :
    ∃ facts objects ledger, decisionFacts sha256 record = .ok facts ∧ facts ∈ ledger ∧
      s.objects <+: objects ∧ s.ledger <+: ledger ∧
      Table.Unique StoredDecisionFacts.decisionDigest ledger ∧ t = { s with
        objects := objects
        ledger := ledger } := by
  obtain ⟨facts, hfacts, h⟩ := bind_eq_ok_iff.mp h
  obtain ⟨objects, hobjects, h⟩ := bind_eq_ok_iff.mp h
  obtain ⟨ledger, hledger, h⟩ := bind_eq_ok_iff.mp h
  obtain rfl := Except.ok.inj h
  refine ⟨facts, objects, ledger, hfacts, (insertFacts_eq_ok hledger).1,
    prefix_of_persistTransitionObjects sha256 hobjects, prefix_of_insertFacts hledger, ?_, rfl⟩
  rcases (insertFacts_eq_ok hledger).2 with rfl | ⟨rfl, hfree⟩
  · exact hs.ledger
  · exact hs.ledger.append fun row hrow hsame => hfree row hrow (decide_eq_true hsame)

/-- The record of a Decision keeps its promise. -/
theorem promises_recordRepositoryDecision {record : RepositoryDecisionRecord}
    (hs : Consistent sha256 entries s) : Promises sha256 entries session
      (recordRepositoryDecision sha256 session record) s := by
  refine promises_commit hs fun t a u _ ht hwrite => ?_
  obtain ⟨_, hrecord, hwrite⟩ := bind_eq_ok_iff.mp hwrite
  obtain ⟨rfl, rfl⟩ := Prod.mk.inj (Except.ok.inj hwrite)
  obtain ⟨facts, objects, ledger, -, -, hobjects, hledger, hunique, rfl⟩ :=
    recordDecisionLedger_eq_ok ht.decisions hrecord
  exact does_decisions ht hobjects hledger List.prefix_rfl hunique fun facts hfacts =>
    hledger.subset (ht.decisions.authorizations facts hfacts)

/-- The authorization of a Decision keeps its promise. -/
theorem promises_recordRepositoryDecisionAuthorization {record : RepositoryDecisionRecord}
    (hs : Consistent sha256 entries s) : Promises sha256 entries session
      (recordRepositoryDecisionAuthorization sha256 session record) s := by
  refine meets_lift (fun _ _ => promises_commit hs fun t a u _ ht hwrite => ?_)
    fun _ _ _ _ => trivial
  obtain ⟨_, hrecord, hwrite⟩ := bind_eq_ok_iff.mp hwrite
  obtain ⟨rfl, rfl⟩ := Prod.mk.inj (Except.ok.inj hwrite)
  obtain ⟨facts, hfacts, hrecord⟩ := bind_eq_ok_iff.mp hrecord
  obtain ⟨_, hledger, hrecord⟩ := bind_eq_ok_iff.mp hrecord
  obtain ⟨authorizations, hauthorizations, hrecord⟩ := bind_eq_ok_iff.mp hrecord
  obtain rfl := Except.ok.inj hrecord
  obtain ⟨facts', objects, ledger, hfacts', hmem, hobjects, hprefix, hunique, rfl⟩ :=
    recordDecisionLedger_eq_ok ht.decisions hledger
  obtain rfl := Except.ok.inj (hfacts'.symm.trans hfacts)
  refine does_decisions ht hobjects hprefix (prefix_of_insertFacts hauthorizations) hunique ?_
  have hold : ∀ row ∈ t.authorizations, row ∈ ledger := fun row hrow =>
    hprefix.subset (ht.decisions.authorizations row hrow)
  rcases (insertFacts_eq_ok hauthorizations).2 with hsame | ⟨hsame, -⟩
  · exact hsame ▸ hold
  · rw [hsame]
    exact List.forall_mem_append.mpr ⟨hold, List.forall_mem_singleton.mpr hmem⟩

/-! ## Branches -/

/-- Branches that leave the heads of refs as they are, and start at members, are a step. -/
theorem does_branches {branches : List BranchRow} (hs : Consistent sha256 entries s)
    (hunique : Table.Unique (fun row : BranchRow => (row.projectId, row.name)) branches)
    (hmembers : ∀ row ∈ branches, ∀ head, row.headCommitHash = some head →
      isMember s row.projectId head = true)
    (hheads : ∀ old ∈ s.branches, ∀ row ∈ branches, row.projectId = old.projectId →
      row.name = old.name → row.headCommitHash = old.headCommitHash) :
    Does sha256 entries session s { s with branches := branches } where
  consistent := {
    graph := {
      branches := hunique
      heads := hmembers
      commits := fun before row after hsplit =>
        (hs.graph.commits before row after hsplit).imp fun _ hcommit =>
          hcommit.keeps List.prefix_rfl
      events := fun event hevent => (hs.graph.events event hevent).imp fun _ hcommit =>
        hcommit.keeps (.besides s _ _ _) }
    decisions := hs.decisions.of_eq rfl rfl
    log := hs.log.keeps (.besides s _ _ _) rfl rfl
    locks := hs.locks }
  keeps := .besides s _ _ _
  refs := refsFollow_of_heads rfl fun p r head head' hhead hhead' => by
    obtain ⟨old, hold, rfl, rfl, rfl⟩ := (refHead_eq_some_iff hs.graph.branches).mp hhead
    obtain ⟨row, hrow, hproject, hname, rfl⟩ := (refHead_eq_some_iff hunique).mp hhead'
    exact hheads old hold row hrow hproject hname
  log := logFollows_of_eq hs.log.ids rfl
  spares _ _ _ hheld := spares_of_eq hheld rfl rfl rfl

/-- A branch that starts at a member is inserted. -/
theorem does_insertBranchRow {row row' : BranchRow} (hs : Consistent sha256 entries s)
    (hmember : ∀ head, row.headCommitHash = some head → isMember s row.projectId head = true)
    (h : insertBranchRow row s = .ok (row', t)) : Does sha256 entries session s t := by
  rw [insertBranchRow] at h
  split_ifs at h with hkeys
  obtain ⟨-, rfl⟩ := Prod.mk.inj (Except.ok.inj h)
  rw [not_or, Bool.not_eq_true, Bool.not_eq_true] at hkeys
  have hfree := Table.hasKey_eq_false_iff.mp hkeys.2
  refine does_branches hs (hs.graph.branches.append hfree) ?_ ?_
  · exact List.forall_mem_append.mpr ⟨hs.graph.heads, List.forall_mem_singleton.mpr hmember⟩
  · intro old hold other hother hproject hname
    rcases List.mem_append.mp hother with hother | hother
    · rw [hs.graph.branches.eq hother hold (Prod.ext hproject hname)]
    · obtain rfl := List.mem_singleton.mp hother
      exact absurd (Prod.ext hproject.symm hname.symm) (hfree old hold)

/-- A branch that is found is the branch of the ref. -/
theorem mem_of_findBranchByName {row : BranchRow}
    (h : findBranchByName s projectId refName = some row) :
    row ∈ s.branches ∧ row.projectId = projectId ∧ row.name = refName :=
  ⟨List.mem_of_find?_eq_some h, by simpa using List.find?_some h⟩

/-- A branch starts at a member if the commit that is asked for is one. -/
theorem isMember_branchPoint {input : CreateBranchInput} {head : JsString}
    (hs : GraphSound sha256 s)
    (hhead : ∀ head, input.headCommitHash = some head → isMember s input.projectId head = true)
    (h : branchPoint input s = some head) : isMember s input.projectId head = true := by
  unfold branchPoint at h
  split at h
  · next hexplicit => exact hhead head (Option.some.inj h ▸ hexplicit)
  · obtain ⟨row, hfind, hrow⟩ := Option.bind_eq_some_iff.mp h
    obtain ⟨hmem, hproject, -⟩ := mem_of_findBranchByName hfind
    exact hproject ▸ hs.heads row hmem head hrow
  · cases h

/-- The insertion of a branch keeps its promise if the commit that is asked for is a member. -/
theorem promises_insertBranch {branchId : JsString} {input : CreateBranchInput}
    (hs : Consistent sha256 entries s)
    (hhead : ∀ head, input.headCommitHash = some head → isMember s input.projectId head = true) :
    Promises sha256 entries session (insertBranch session branchId input) s := by
  refine promises_query hs fun t ht htc => promises_query htc fun u hu huc =>
    promises_commit huc fun v a w hv hvc hwrite => ?_
  have hmember : ∀ head, branchPoint input u = some head →
      isMember u input.projectId head = true := fun head =>
    isMember_branchPoint huc.graph fun head hexplicit => isMember_of_keeps (hhead head hexplicit)
      (((ht hs).2.1.trans (hu htc).2.1).commits)
  exact does_insertBranchRow hvc (fun head hpoint =>
    isMember_of_keeps (hmember head hpoint) (hv huc).2.1.commits) hwrite

/-- The switch to a branch keeps its promise. -/
theorem promises_switchBranch {branchName : JsString} (hs : Consistent sha256 entries s) :
    Promises sha256 entries session (switchBranch session projectId branchName) s := by
  refine promises_query hs fun t _ ht => ?_
  cases findBranchByName t projectId branchName with
  | none => exact fun _ _ => trivial
  | some _ =>
    refine promises_commit ht fun u a v _ hu hwrite => ?_
    obtain ⟨rfl, rfl⟩ := Prod.mk.inj (Except.ok.inj hwrite)
    have hsame : ∀ row ∈ Table.update (fun row : BranchRow => decide (row.projectId = projectId))
        (fun row => { row with isCurrent := decide (row.name = branchName) }) u.branches,
        ∃ old ∈ u.branches, row.projectId = old.projectId ∧ row.name = old.name ∧
          row.headCommitHash = old.headCommitHash := by
      intro row hrow
      obtain ⟨old, hold, rfl⟩ := Table.mem_update.mp hrow
      refine ⟨old, hold, ?_⟩
      split_ifs <;> exact ⟨rfl, rfl, rfl⟩
    refine does_branches hu (hu.graph.branches.update fun _ _ => rfl) ?_ ?_
    · intro row hrow head hhead
      obtain ⟨old, hold, hproject, -, hheads⟩ := hsame row hrow
      rw [hproject]
      exact hu.graph.heads old hold head (hheads ▸ hhead)
    · intro old hold row hrow hproject hname
      obtain ⟨old', hold', hproject', hname', hheads⟩ := hsame row hrow
      rw [hheads, hu.graph.branches.eq hold' hold
        (Prod.ext (hproject'.symm.trans hproject) (hname'.symm.trans hname))]

/-- The deletion of a branch keeps its promise. -/
theorem promises_deleteBranch {branchName : JsString} (hs : Consistent sha256 entries s) :
    Promises sha256 entries session (deleteBranch session projectId branchName) s := by
  refine promises_query hs fun t _ ht => ?_
  cases findBranchByName t projectId branchName with
  | none => exact fun _ _ => trivial
  | some branch =>
    dsimp only
    split_ifs with hcurrent
    · exact fun _ _ => trivial
    · refine promises_commit ht fun u a v _ hu hwrite => ?_
      obtain ⟨rfl, rfl⟩ := Prod.mk.inj (Except.ok.inj hwrite)
      have hsub : ∀ row ∈ u.branches.filter fun row => !isBranch projectId branchName row,
          row ∈ u.branches := fun row hrow => (List.mem_filter.mp hrow).1
      refine does_branches hu (hu.graph.branches.sublist (List.filter_sublist.map _)) ?_ ?_
      · exact fun row hrow => hu.graph.heads row (hsub row hrow)
      · intro old hold row hrow hproject hname
        rw [hu.graph.branches.eq (hsub row hrow) hold (Prod.ext hproject hname)]

/-- The main branch keeps its promise. -/
theorem promises_ensureMainBranch {branchId : JsString} (hs : Consistent sha256 entries s) :
    Promises sha256 entries session (ensureMainBranch session branchId projectId) s := by
  refine promises_query hs fun t _ ht => ?_
  cases findBranchByName t projectId (js "main") with
  | some existing => exact fun _ _ => trivial
  | none =>
    refine promises_query ht fun u _ hu => promises_commit hu fun v a w _ hv hwrite => ?_
    split at hwrite
    · obtain ⟨rfl, rfl⟩ := Prod.mk.inj (Except.ok.inj hwrite)
      exact .refl hv
    · refine does_insertBranchRow hv (fun head hhead => ?_) hwrite
      cases hhead

/-! ## What is stored with a commit -/

/-- The result of a protocol function is thrown on only. -/
theorem ofProtocol_eq_ok_iff {T : Type} {result : Except ProtocolError T} {a : T} :
    ofProtocol result = .ok a ↔ result = .ok a := by
  cases result <;> simp [ofProtocol, Except.mapError]

/-- The members of the results of a computation over a list. -/
theorem mem_mapM_iff {S T E : Type} {f : S → Except E T} {xs : List S} {ys : List T}
    (h : xs.mapM f = .ok ys) {y : T} : y ∈ ys ↔ ∃ x ∈ xs, f x = .ok y := by
  rw [mapM_eq_ok_iff] at h
  induction h with
  | nil => simp
  | cons hfirst _ ih => simp [ih, hfirst, eq_comm]

/-- The row of an object has its digest and its bytes. -/
theorem stored_of_serialize {object : JsValue} {row : ObjectRow}
    (h : serializeTransitionObject sha256 object = .ok row) : ∃ d,
      Stored sha256 object d (encodeUtf8 row.canonicalJson) ∧
        isWellFormed row.canonicalJson = true ∧ row.digest = d.digest ∧
        row.kind = d.kind.text ∧ row.schema = d.schema := by
  obtain ⟨d, hd, h⟩ := bind_eq_ok_iff.mp h
  obtain ⟨bytes, hbytes, h⟩ := bind_eq_ok_iff.mp h
  rw [ofProtocol_eq_ok_iff] at hd hbytes
  obtain ⟨-, hcanonical⟩ := canonicalProtocolObjectBytes_eq_ok_iff.mp hbytes
  obtain ⟨text, htext, rfl⟩ := canonicalProtocolBytes_eq_ok_iff.mp hcanonical
  rw [decodeUtf8_encodeUtf8 (isWellFormed_canonical htext) (head_canonical htext)] at h
  obtain rfl := Except.ok.inj h
  exact ⟨d, ⟨hd, hbytes⟩, isWellFormed_canonical htext, rfl, rfl, rfl⟩

/-- The input of a hash determines the kind and the bytes. -/
theorem digestInput_inj {kind kind' : ObjectKind} {bytes bytes' : List UInt8}
    (h : digestInput kind (expectedSchema kind) bytes =
      digestInput kind' (expectedSchema kind') bytes') : kind = kind' ∧ bytes = bytes' := by
  have hsame : kind = kind' := by
    have htake := congrArg (List.take 20) h
    rw [digestInput, digestInput, List.take_append_of_le_length (by cases kind <;> decide),
      List.take_append_of_le_length (by cases kind' <;> decide)] at htake
    revert htake
    cases kind <;> cases kind' <;> decide
  subst hsame
  exact ⟨rfl, List.append_cancel_left h⟩

/-- Without collisions the rows under one digest are one row. -/
theorem row_eq_of_digest {objects : List JsValue} (hfree : CollisionFree sha256 objects)
    {object object' : JsValue} (hmem : object ∈ objects) (hmem' : object' ∈ objects)
    {row row' : ObjectRow} (h : serializeTransitionObject sha256 object = .ok row)
    (h' : serializeTransitionObject sha256 object' = .ok row') (hdigest : row.digest = row'.digest) :
    row = row' := by
  obtain ⟨d, hstored, hunicode, hrow, hkind, hschema⟩ := stored_of_serialize h
  obtain ⟨d', hstored', hunicode', hrow', hkind', hschema'⟩ := stored_of_serialize h'
  obtain ⟨hd, hhash⟩ := describe_schema hstored
  obtain ⟨hd', hhash'⟩ := describe_schema hstored'
  have hinput := hfree object hmem object' hmem' d d' _ _ hstored hstored' (List.append_cancel_left
    (hhash.symm.trans ((hrow.symm.trans hdigest).trans (hrow'.trans hhash'))))
  rw [hd, hd'] at hinput
  obtain ⟨hsame, hbytes⟩ := digestInput_inj hinput
  have htext := encodeUtf8_inj hunicode hunicode' hbytes
  obtain ⟨digest, kind, schema, text⟩ := row
  simp only at hrow hkind hschema hdigest htext
  rw [hdigest, htext, hkind, hschema, hd, hsame, ← hd', ← hkind', ← hschema']

/-- A row that is persisted is found. -/
theorem findObject_of_persistRow {objects objects' : List ObjectRow} {row : ObjectRow}
    (h : persistRow objects row = .ok objects') : findObject objects' row.digest = some row := by
  rw [persistRow] at h
  split at h
  · next hfind =>
    obtain rfl := Except.ok.inj h
    rw [findObject] at hfind ⊢
    rw [List.find?_append, hfind]
    simp
  · next stored hfind =>
    split_ifs at h with hsame
    obtain rfl := Except.ok.inj h
    rw [hfind, hsame]

/-- Rows that are persisted one after the other are found. -/
theorem findObject_of_persistRows {rows stored stored' : List ObjectRow}
    (h : rows.foldlM persistRow stored = .ok stored') :
    ∀ row ∈ rows, findObject stored' row.digest = some row := by
  induction rows generalizing stored with
  | nil => exact fun _ hrow => absurd hrow List.not_mem_nil
  | cons row rows ih =>
    rw [List.foldlM_cons] at h
    obtain ⟨next, hnext, hrest⟩ := bind_eq_ok_iff.mp h
    exact List.forall_mem_cons.mpr ⟨findObject_of_added (prefix_of_persistRows hrest)
      (findObject_of_persistRow hnext), ih hrest⟩

/-- A row is found by its digest among rows where no other row has the digest. -/
theorem get_foldl_rows {rows : List ObjectRow} {row : ObjectRow} {map : Record ObjectRow}
    (hsame : ∀ other ∈ rows, other.digest = row.digest → other = row)
    (h : row ∈ rows ∨ Record.get map row.digest = some row) :
    Record.get (rows.foldl (fun map row => Record.mapSet map row.digest row) map) row.digest =
      some row := by
  induction rows generalizing map with
  | nil => exact h.resolve_left List.not_mem_nil
  | cons first rows ih =>
    rw [List.forall_mem_cons] at hsame
    rw [List.foldl_cons]
    refine ih hsame.2 ?_
    rw [List.mem_cons, or_assoc] at h
    rw [Record.get_mapSet]
    split_ifs with hfirst
    · exact .inr (congrArg some (hsame.1 hfirst.symm))
    · rcases h with rfl | h | h
      · exact absurd rfl hfirst
      · exact .inl h
      · exact .inr h

/-- An object that is persisted is found, unless another one has its digest. -/
theorem findObject_of_persist {objects : List JsValue} {stored stored' : List ObjectRow}
    (hfree : CollisionFree sha256 objects)
    (h : persistTransitionObjects sha256 objects stored = .ok stored') {object : JsValue}
    (hmem : object ∈ objects) {row : ObjectRow}
    (hrow : serializeTransitionObject sha256 object = .ok row) :
    findObject stored' row.digest = some row := by
  obtain ⟨serialized, hserialized, hrows⟩ := bind_eq_ok_iff.mp h
  have hsame : ∀ other ∈ serialized, other.digest = row.digest → other = row := by
    intro other hother hdigest
    obtain ⟨object', hmem', hother⟩ := (mem_mapM_iff hserialized).mp hother
    exact row_eq_of_digest hfree hmem' hmem hother hrow hdigest
  refine findObject_of_persistRows hrows row ((sortBy_perm _ _).mem_iff.mpr ?_)
  exact List.mem_map.mpr ⟨_, Record.mem_of_get (get_foldl_rows hsame
    (.inl ((mem_mapM_iff hserialized).mpr ⟨object, hmem, hrow⟩))), rfl⟩

/-- The bytes of an object that is laid over are those of the object. -/
theorem get_of_overlayObject {overlay overlay' : Record (List UInt8)} {object : JsValue}
    (h : overlayObject sha256 overlay object = .ok overlay') {digest : JsString}
    {bytes : List UInt8} (hget : Record.get overlay' digest = some bytes) :
    Record.get overlay digest = some bytes ∨ ∃ row,
      serializeTransitionObject sha256 object = .ok row ∧ row.digest = digest ∧
        encodeUtf8 row.canonicalJson = bytes := by
  obtain ⟨row, hrow, h⟩ := bind_eq_ok_iff.mp h
  obtain ⟨-, h⟩ := refuse_eq_ok_iff.mp h
  obtain rfl := Except.ok.inj h
  rw [Record.get_mapSet] at hget
  split_ifs at hget with hdigest
  · exact .inr ⟨row, hrow, hdigest.symm, Option.some.inj hget⟩
  · exact .inl hget

/-- The bytes of the overlay are those of its objects. -/
theorem mem_of_overlay {objects : List JsValue} {start overlay : Record (List UInt8)}
    (h : objects.foldlM (overlayObject sha256) start = .ok overlay) {digest : JsString}
    {bytes : List UInt8} (hget : Record.get overlay digest = some bytes) :
    Record.get start digest = some bytes ∨ ∃ object ∈ objects, ∃ row,
      serializeTransitionObject sha256 object = .ok row ∧ row.digest = digest ∧
        encodeUtf8 row.canonicalJson = bytes := by
  induction objects generalizing start with
  | nil => exact .inl (Except.ok.inj h ▸ hget)
  | cons object objects ih =>
    rw [List.foldlM_cons] at h
    obtain ⟨next, hnext, hrest⟩ := bind_eq_ok_iff.mp h
    rcases ih hrest with hstart | ⟨other, hmem, hrow⟩
    · exact (get_of_overlayObject hnext hstart).imp_right fun hrow =>
        ⟨object, List.mem_cons_self, hrow⟩
    · exact .inr ⟨other, List.mem_cons_of_mem _ hmem, hrow⟩

/-- What a commit is verified with is stored with it. -/
theorem plainResolver_of_overlay {input : CreateTransitionCommitInput} {resolver : ObjectResolver}
    {commit : JsValue} {objects : List ObjectRow} (hcommits : s.objects <+: t.objects)
    (hfree : CollisionFree sha256 (input.objects ++ [commit]))
    (hresolver : overlayTransitionObjects sha256 (databaseResolver s input.projectId)
      input.objects = .ok resolver)
    (hpersist : persistTransitionObjects sha256 (input.objects ++ [commit]) t.objects =
      .ok objects) {d : ObjectDescriptor} {bytes : List UInt8} (h : resolver d = some bytes) :
    plainResolver objects d = some bytes := by
  obtain ⟨overlay, hoverlay, rfl⟩ := map_eq_ok_iff.mp hresolver
  rcases Option.or_eq_some_iff.mp h with hget | ⟨-, hget⟩
  · rcases mem_of_overlay hoverlay hget with hnone | ⟨object, hmem, row, hrow, hdigest, hbytes⟩
    · cases hnone
    · have hfind := findObject_of_persist hfree hpersist (List.mem_append_left _ hmem) hrow
      rw [plainResolver, ← hdigest, hfind, Option.map_some, hbytes]
  · rw [databaseResolver] at hget
    split_ifs at hget
    exact plainResolver_of_added
      (hcommits.trans (prefix_of_persistTransitionObjects sha256 hpersist)) hget

/-! ## Commits -/

/-- What the transaction of a commit writes. -/
theorem writeCommit_eq_ok {input : CreateTransitionCommitInput} {yopsLogIds : List JsString}
    {verified : VerifiedCommitIntegrity} {digest digest' : JsString}
    (h : writeCommit sha256 input yopsLogIds verified digest s = .ok (digest', t)) :
    ∃ objects consumptions,
      persistTransitionObjects sha256 (input.objects ++ [verified.commit]) s.objects =
        .ok objects ∧
      insertConsumptions (yopsLogIds.map fun id => ⟨input.projectId, id, digest⟩)
        s.consumptions = .ok consumptions ∧
      s.branches.any (hasHead input.projectId input.refName input.expectedHead) = true ∧
      t = { s with
        objects := objects
        commits := insertCommit ⟨input.projectId, digest, commitV2MediaType⟩ s.commits
        consumptions := consumptions
        branches := Table.update (hasHead input.projectId input.refName input.expectedHead)
          (fun row => { row with headCommitHash := some digest }) s.branches
        events := s.events ++
          [⟨input.projectId, input.refName, input.expectedHead, digest⟩] } := by
  obtain ⟨objects, hobjects, h⟩ := bind_eq_ok_iff.mp h
  obtain ⟨consumptions, hconsumptions, h⟩ := bind_eq_ok_iff.mp h
  obtain ⟨next, hadvance, h⟩ := bind_eq_ok_iff.mp h
  obtain ⟨-, rfl⟩ := Prod.mk.inj (Except.ok.inj h)
  rw [advanceRef] at hadvance
  split_ifs at hadvance with hhead
  · obtain rfl := Except.ok.inj hadvance
    exact ⟨objects, consumptions, hobjects, hconsumptions, hhead, rfl⟩
  · split at hadvance <;> cases hadvance

/-- Memberships are added. -/
theorem prefix_of_insertCommit (row : CommitRow) (commits : List CommitRow) :
    commits <+: insertCommit row commits := by
  rw [insertCommit]
  split_ifs
  · exact List.prefix_rfl
  · exact List.prefix_append _ _

/-- A commit whose membership is inserted is a member. -/
theorem isMember_of_insertCommit {row : CommitRow}
    (hcommits : t.commits = insertCommit row s.commits) :
    isMember t row.projectId row.digest = true := by
  rw [insertCommit] at hcommits
  rw [isMember_eq_true_iff, hcommits]
  split_ifs with hkey
  · obtain ⟨old, hold, hsame⟩ := Table.hasKey_eq_true_iff.mp hkey
    obtain ⟨hproject, hdigest⟩ := Prod.mk.inj hsame
    exact ⟨old, hold, hproject, hdigest⟩
  · exact ⟨row, List.mem_append_right _ (List.mem_singleton_self row), rfl, rfl⟩

/-- Consumptions that are inserted are added, each for an entry that was free. -/
theorem insertConsumptions_eq_ok {rows consumptions consumptions' : List ConsumptionRow}
    (h : insertConsumptions rows consumptions = .ok consumptions') :
    consumptions' = consumptions ++ rows ∧ ∀ row ∈ rows, ∀ old ∈ consumptions,
      (old.projectId, old.yopsLogId) ≠ (row.projectId, row.yopsLogId) := by
  rw [insertConsumptions] at h
  split_ifs at h with htaken
  obtain rfl := Except.ok.inj h
  refine ⟨rfl, fun row hrow old hold hsame => htaken (List.any_eq_true.mpr ⟨row, hrow, ?_⟩)⟩
  exact Table.hasKey_eq_true_iff.mpr ⟨old, hold, hsame⟩

/-- The descriptor of a commit has its kind and schema. -/
theorem describeCommitV2_eq_ok {commit : JsValue} {d : ObjectDescriptor}
    (h : describeCommitV2 sha256 commit = .ok d) : parseCommitV2 commit = .ok commit ∧
      describeProtocolObject sha256 commit = .ok d ∧ d = commitDescriptor d.digest := by
  obtain ⟨parsed, hparsed, hdescribe⟩ := bind_eq_ok_iff.mp (ofProtocol_eq_ok_iff.mp h)
  obtain rfl := parseCommitV2_returns _ _ hparsed
  refine ⟨hparsed, hdescribe, ?_⟩
  have hcommit : kindForSchema parsed = some (.commit, commitV2Schema) :=
    Independent.kindForSchema_eq_some_iff.mpr
      ⟨(Independent.object_of_parseCommitV2 hparsed).2, by decide⟩
  obtain ⟨_, -, hkind, -⟩ := describeProtocolObject_eq_ok_iff.mp hdescribe
  obtain ⟨hkind, hschema⟩ := Prod.mk.inj (Option.some.inj (hcommit.symm.trans hkind))
  obtain ⟨kind, schema, digest⟩ := d
  simp only at hkind hschema
  rw [commitDescriptor, ← hkind, ← hschema]

/-- A commit that is described is stored under its digest when it is persisted. -/
theorem holds_of_persist {objects : List JsValue} {commit : JsValue} {d : ObjectDescriptor}
    (hfree : CollisionFree sha256 (objects ++ [commit]))
    (hpersist : persistTransitionObjects sha256 (objects ++ [commit]) s.objects = .ok t.objects)
    (hdescribe : describeCommitV2 sha256 commit = .ok d) :
    d = commitDescriptor d.digest ∧ Holds sha256 t d commit := by
  obtain ⟨-, hdescribe, hd⟩ := describeCommitV2_eq_ok hdescribe
  have hmem : commit ∈ objects ++ [commit] :=
    List.mem_append_right _ (List.mem_singleton_self commit)
  obtain ⟨serialized, hserialized, -⟩ := bind_eq_ok_iff.mp hpersist
  obtain ⟨row, hrow⟩ := exists_mapM_iff.mp ⟨_, hserialized⟩ commit hmem
  obtain ⟨d', hstored, -, hdigest, -⟩ := stored_of_serialize hrow
  obtain rfl := Except.ok.inj (hstored.1.symm.trans hdescribe)
  exact ⟨hd, row, hdigest ▸ findObject_of_persist hfree hpersist hmem hrow, hstored⟩

section advance

variable {event : BranchAdvancedEvent} {commit : JsValue}

/-- A branch has the head of its ref. -/
theorem hasHead_eq_true_iff {head : Option JsString} {row : BranchRow} :
    hasHead projectId refName head row = true ↔
      row.projectId = projectId ∧ row.name = refName ∧ row.headCommitHash = head := by
  simp [hasHead, and_assoc]

/-- A verified commit on the head of a ref keeps the commits and refs sound. -/
theorem graphSound_advance (hs : GraphSound sha256 s) (hkeeps : Keeps s t)
    (hcommits : t.commits = insertCommit ⟨event.projectId, event.head, commitV2MediaType⟩ s.commits)
    (hbranches : t.branches = Table.update
      (hasHead event.projectId event.refName event.previousHead)
      (fun row => { row with headCommitHash := some event.head }) s.branches)
    (hevents : t.events = s.events ++ [event])
    (hrecorded : Recorded sha256 t s.commits
      ⟨event.projectId, event.head, commitV2MediaType⟩ commit)
    (hadvanced : Advanced sha256 t event commit) : GraphSound sha256 t where
  branches := hbranches ▸ hs.branches.update fun _ _ => rfl
  heads row hrow head hhead := by
    rw [hbranches] at hrow
    obtain ⟨old, hold, rfl⟩ := Table.mem_update.mp hrow
    split_ifs at hhead ⊢ with hcond
    · obtain rfl := Option.some.inj hhead
      exact (hasHead_eq_true_iff.mp hcond).1 ▸ hadvanced.member
    · exact isMember_of_keeps (hs.heads old hold head hhead) hkeeps.commits
  commits before row after hsplit := by
    have hold : ∀ after', s.commits = before ++ row :: after' →
        ∃ commit, Recorded sha256 t before row commit := fun after' hsplit =>
      (hs.commits before row after' hsplit).imp fun _ hcommit => hcommit.keeps hkeeps.objects
    rw [hcommits, insertCommit] at hsplit
    split_ifs at hsplit
    · exact hold after hsplit
    -- The new membership comes last: a split ends with it, or is one of the old memberships.
    · rcases List.eq_nil_or_concat' after with rfl | ⟨after', last, rfl⟩
      · obtain ⟨rfl, hrow⟩ := List.append_inj' hsplit rfl
        obtain rfl := List.head_eq_of_cons_eq hrow
        exact ⟨commit, hrecorded⟩
      · rw [← List.cons_append, ← List.append_assoc] at hsplit
        exact hold after' (List.append_inj' hsplit rfl).1
  events other hother := by
    rw [hevents, List.mem_append, List.mem_singleton] at hother
    rcases hother with hother | rfl
    · exact (hs.events other hother).imp fun _ hcommit => hcommit.keeps hkeeps
    · exact ⟨commit, hadvanced⟩

/-- A ref that advances moves along its event, and the other refs stay. -/
theorem refsFollow_advance (hs : GraphSound sha256 s) (ht : GraphSound sha256 t)
    (hhead : s.branches.any (hasHead event.projectId event.refName event.previousHead) = true)
    (hbranches : t.branches = Table.update
      (hasHead event.projectId event.refName event.previousHead)
      (fun row => { row with headCommitHash := some event.head }) s.branches)
    (hevents : t.events = s.events ++ [event]) : RefsFollow s t := by
  intro projectId refName head head' hbefore hafter
  obtain ⟨old, hold, rfl, rfl, rfl⟩ := (refHead_eq_some_iff hs.branches).mp hbefore
  obtain ⟨row, hrow, hproject, hname, rfl⟩ := (refHead_eq_some_iff ht.branches).mp hafter
  rw [hbranches] at hrow
  obtain ⟨old', hold', rfl⟩ := Table.mem_update.mp hrow
  obtain rfl : old' = old := by
    refine hs.branches.eq hold' hold (Prod.ext ?_ ?_)
    · split_ifs at hproject <;> exact hproject
    · split_ifs at hname <;> exact hname
  rw [newEvents_of_append hevents, eventsOf]
  by_cases href : event.projectId = old'.projectId ∧ event.refName = old'.name
  · obtain ⟨target, htarget, hcond⟩ := List.any_eq_true.mp hhead
    obtain ⟨htargetProject, htargetName, htargetHead⟩ := hasHead_eq_true_iff.mp hcond
    obtain rfl := hs.branches.eq htarget hold
      (Prod.ext (htargetProject.trans href.1) (htargetName.trans href.2))
    rw [List.filter_cons_of_pos (by simp [href]), if_pos hcond]
    exact ⟨htargetHead.symm, rfl⟩
  · rw [List.filter_cons_of_neg (by simpa using href), List.filter_nil, if_neg fun hcond => href
      ⟨(hasHead_eq_true_iff.mp hcond).1.symm, (hasHead_eq_true_iff.mp hcond).2.1.symm⟩]
    exact rfl

/-- A commit that consumes active entries keeps the log sound. -/
theorem logSound_consume {yopsLogIds : List JsString} {digest : JsString}
    (hs : LogSound entries s) (hkeeps : Keeps s t) (hlog : t.yopsLog = s.yopsLog)
    (hinsert : insertConsumptions (yopsLogIds.map fun id => ⟨projectId, id, digest⟩)
      s.consumptions = .ok t.consumptions)
    (hids : yopsLogIds.Nodup) (hmember : isMember t projectId digest = true)
    (hactive : ∀ id ∈ yopsLogIds, ∃ row ∈ s.yopsLog,
      row.id = id ∧ row.projectId = projectId ∧ row.supersededAt = none) :
    LogSound entries t where
  ids := hlog ▸ hs.ids
  content row hrow := hs.content row (hlog ▸ hrow)
  projects row hrow := by
    rw [conversationProject, hkeeps.conversations]
    exact hs.projects row (hlog ▸ hrow)
  once := by
    obtain ⟨hadded, hfree⟩ := insertConsumptions_eq_ok hinsert
    rw [hadded, Table.Unique, List.map_append, List.nodup_append]
    refine ⟨hs.once, ?_, ?_⟩
    · rw [List.map_map]
      exact hids.map fun _ _ hsame => (Prod.mk.inj hsame).2
    · intro key hkey key' hkey'
      obtain ⟨old, hold, rfl⟩ := List.mem_map.mp hkey
      obtain ⟨row, hrow, rfl⟩ := List.mem_map.mp hkey'
      exact hfree row hrow old hold
  commits row hrow := by
    rw [(insertConsumptions_eq_ok hinsert).1] at hrow
    rcases List.mem_append.mp hrow with hrow | hrow
    · exact isMember_of_keeps (hs.commits row hrow) hkeeps.commits
    · obtain ⟨id, -, rfl⟩ := List.mem_map.mp hrow
      exact hmember
  consumed row hrow := by
    rw [(insertConsumptions_eq_ok hinsert).1] at hrow
    rw [hlog]
    rcases List.mem_append.mp hrow with hrow | hrow
    · exact hs.consumed row hrow
    · obtain ⟨id, hid, rfl⟩ := List.mem_map.mp hrow
      exact hactive id hid

end advance

/-- What an earlier store verified is verified by the objects that are stored with it. -/
theorem verified_of_verifyInput {input : CreateTransitionCommitInput}
    {verified : VerifiedCommitIntegrity} {objects : List ObjectRow}
    (hobjects : s.objects <+: t.objects)
    (hfree : CollisionFree sha256 (input.objects ++ [input.commit]))
    (hverify : verifyInput sha256 input s = .ok verified)
    (hpersist : persistTransitionObjects sha256 (input.objects ++ [verified.commit]) t.objects =
      .ok objects) : verified.commit = input.commit ∧
      verifyCommitIntegrity sha256 (plainResolver objects) input.commit = .ok verified := by
  obtain ⟨resolver, hresolver, hverify⟩ := bind_eq_ok_iff.mp hverify
  obtain ⟨parsed, hparsed, hverify⟩ := bind_eq_ok_iff.mp (ofProtocol_eq_ok_iff.mp hverify)
  obtain rfl := parseCommitV2_returns _ _ hparsed
  have hreturned := commit_of_verifyCommitIntegrity hverify
  rw [hreturned] at hpersist
  refine ⟨hreturned, (verifyCommitIntegrity_of_requests hverify fun _ _ _ hresolve => ?_).1⟩
  exact resolveProtocolObject_of_imp hresolve fun _ _ _ =>
    plainResolver_of_overlay hobjects hfree hresolver hpersist

/-- The write of a commit that was checked is a step. -/
theorem does_writeCommit {input : CreateTransitionCommitInput} {yopsLogIds : List JsString}
    {verified : VerifiedCommitIntegrity} {d : ObjectDescriptor} {digest : JsString}
    (hs : Consistent sha256 entries s)
    (hfree : CollisionFree sha256 (input.objects ++ [input.commit]))
    (hfirst : firstParent input.commit = input.expectedHead)
    (hparents : ∀ parent ∈ parentDigests input.commit,
      isMember s input.projectId parent = true)
    (hverify : ∃ earlier : Store, earlier.objects <+: s.objects ∧
      verifyInput sha256 input earlier = .ok verified)
    (hdescribe : describeCommitV2 sha256 verified.commit = .ok d)
    (hauthorized : ∃ facts ∈ s.authorizations, facts.projectId = input.projectId ∧
      facts.refName = input.refName ∧
      facts.decisionDigest = digestOf (part verified.commit "decision"))
    (hids : yopsLogIds.Nodup) (hheld : yopsLogIds = [] ∨ (input.projectId, session) ∈ s.locks)
    (hactive : ∀ id ∈ yopsLogIds, ∃ row ∈ s.yopsLog,
      row.id = id ∧ row.projectId = input.projectId ∧ row.supersededAt = none)
    (hwrite : writeCommit sha256 input yopsLogIds verified d.digest s = .ok (digest, t)) :
    Does sha256 entries session s t := by
  obtain ⟨objects, consumptions, hpersist, hinsert, hhead, rfl⟩ := writeCommit_eq_ok hwrite
  obtain ⟨earlier, hearlier, hverify⟩ := hverify
  obtain ⟨hcommit, hverified⟩ := verified_of_verifyInput hearlier hfree hverify hpersist
  rw [hcommit] at hdescribe hauthorized hpersist
  set t : Store := { s with
    objects := objects
    commits := insertCommit ⟨input.projectId, d.digest, commitV2MediaType⟩ s.commits
    consumptions := consumptions
    branches := Table.update (hasHead input.projectId input.refName input.expectedHead)
      (fun row => { row with headCommitHash := some d.digest }) s.branches
    events := s.events ++ [⟨input.projectId, input.refName, input.expectedHead, d.digest⟩] }
    with ht
  obtain ⟨hadded, -⟩ := insertConsumptions_eq_ok hinsert
  have hkeeps : Keeps s t :=
    { objects := prefix_of_persistTransitionObjects sha256 hpersist
      commits := prefix_of_insertCommit _ _
      ledger := List.prefix_rfl
      authorizations := List.prefix_rfl
      consumptions := by
        rw [ht, hadded]
        exact List.prefix_append _ _
      events := List.prefix_append _ _
      conversations := rfl }
  have hmember : isMember t input.projectId d.digest = true :=
    isMember_of_insertCommit (show t.commits =
      insertCommit ⟨input.projectId, d.digest, commitV2MediaType⟩ s.commits from rfl)
  obtain ⟨hd, hholds⟩ := holds_of_persist (t := t) hfree hpersist hdescribe
  rw [hd] at hholds
  have hgraph : GraphSound sha256 t := by
    refine graphSound_advance hs.graph hkeeps rfl rfl rfl
      ⟨rfl, hholds, fun parent hparent => ?_, verified, hverified⟩
      ⟨hmember, hholds, hfirst, hauthorized⟩
    exact isMember_eq_true_iff.mp (hparents parent hparent)
  exact {
    consistent := {
      graph := hgraph
      decisions := hs.decisions.of_eq rfl rfl
      log := logSound_consume hs.log hkeeps rfl hinsert hids hmember hactive
      locks := hs.locks }
    keeps := hkeeps
    refs := refsFollow_advance hs.graph hgraph hhead rfl rfl
    log := logFollows_of_eq hs.log.ids rfl
    spares := fun projectId holder hne hother => by
      refine ⟨hother, fun row hrow _ => hrow, fun row hrow hproject => ?_⟩
      rw [ht, hadded] at hrow
      refine (List.mem_append.mp hrow).resolve_right fun hrow => ?_
      obtain ⟨id, hid, rfl⟩ := List.mem_map.mp hrow
      rcases hheld with rfl | hheld
      · exact List.not_mem_nil hid
      · exact hne (hs.locks _ hother _ hheld hproject.symm) }

/-- The members of a sorted list without repetitions are those of the list. -/
theorem mem_sortBy_distinct {ids : List JsString} {id : JsString} :
    id ∈ sortBy compareCodeUnits (distinct ids) ↔ id ∈ ids :=
  (sortBy_perm _ _).mem_iff.trans mem_distinct

/-- Entries that passed the checks belong to the project and are active. -/
theorem active_of_checks {ids : List JsString}
    (hmembership : checkLogMembership projectId ids s = .ok ()) {id : JsString} (hid : id ∈ ids) :
    ∃ row ∈ s.yopsLog, row.id = id ∧ row.projectId = projectId := by
  rw [checkLogMembership] at hmembership
  split_ifs at hmembership with hnone
  have hproject := List.filter_eq_nil_iff.mp hnone id hid
  rw [decide_eq_true_eq, not_not, logProject, Option.map_eq_some_iff] at hproject
  obtain ⟨row, hfind, hproject⟩ := hproject
  exact ⟨row, List.mem_of_find?_eq_some hfind, by simpa using List.find?_some hfind, hproject⟩

/-- The last part of the creation of a commit keeps its promise. -/
theorem promises_verifyAndWrite {input : CreateTransitionCommitInput} {yopsLogIds : List JsString}
    (hs : Consistent sha256 entries s)
    (hfree : CollisionFree sha256 (input.objects ++ [input.commit]))
    (hfirst : firstParent input.commit = input.expectedHead)
    (hparents : ∀ parent ∈ parentDigests input.commit,
      isMember s input.projectId parent = true)
    (hids : yopsLogIds.Nodup) (hheld : yopsLogIds = [] ∨ (input.projectId, session) ∈ s.locks)
    (hactive : ∀ id ∈ yopsLogIds, ∃ row ∈ s.yopsLog,
      row.id = id ∧ row.projectId = input.projectId ∧ row.supersededAt = none) :
    Promises sha256 entries session (verifyAndWrite sha256 session input yopsLogIds) s := by
  refine promises_statement hs fun t verified ht htc hverify => promises_statement htc
    fun u d hu huc hdescribe => promises_statement huc fun v _ hv hvc hauthorized =>
    promises_commit hvc fun w digest x hw hwc hwrite => ?_
  have hrely := ht.trans (hu.trans (hv.trans hw))
  refine does_writeCommit hwc hfree hfirst
    (fun parent hparent => isMember_of_keeps (hparents parent hparent) (hrely hs).2.1.commits)
    ⟨t, ((hu.trans (hv.trans hw)) htc).2.1.objects, hverify⟩ hdescribe ?_ hids ?_ ?_ hwrite
  · rw [checkAuthorized] at hauthorized
    split_ifs at hauthorized with hany
    obtain ⟨facts, hfacts, hsame⟩ := List.any_eq_true.mp hany
    simp only [Bool.and_eq_true, decide_eq_true_eq] at hsame
    exact ⟨facts, (hw hvc).2.1.authorizations.subset hfacts, hsame.1.1, hsame.1.2, hsame.2⟩
  · exact hheld.imp_right fun hheld => ((hrely hs).2.2 _ hheld).held
  · intro id hid
    obtain ⟨row, hrow, hsame, hproject, hnone⟩ := hactive id hid
    have hlock := hheld.resolve_left (List.ne_nil_of_mem hid)
    exact ⟨row, ((hrely hs).2.2 _ hlock).rows row hrow hproject, hsame, hproject, hnone⟩

/-- The creation of a commit keeps its promise. -/
theorem promises_createTransitionCommit {input : CreateTransitionCommitInput}
    (hs : Consistent sha256 entries s)
    (hfree : CollisionFree sha256 (input.objects ++ [input.commit])) :
    Promises sha256 entries session (createTransitionCommit sha256 session input) s := by
  unfold createTransitionCommit
  split_ifs with hfirst
  · exact fun _ _ => trivial
  rw [not_not] at hfirst
  refine promises_statement hs fun t _ _ ht hcheck => ?_
  have hparents : ∀ parent ∈ parentDigests input.commit,
      isMember t input.projectId parent = true := by
    intro parent hparent
    rw [checkParents] at hcheck
    split_ifs at hcheck with hnone
    simpa using List.filter_eq_nil_iff.mp hnone parent (mem_sortBy_distinct.mpr hparent)
  have hids : (sortBy compareCodeUnits (distinct input.yopsLogIds)).Nodup :=
    (sortBy_perm _ _).nodup_iff.mpr (nodup_distinct _)
  dsimp only
  split_ifs with hempty
  · rw [List.isEmpty_iff] at hempty
    exact promises_verifyAndWrite ht hfree hfirst hparents hids (.inl hempty) fun id hid =>
      absurd (hempty ▸ hid) List.not_mem_nil
  · refine promises_acquire ht fun u v hu hkeeps hv hheld => promises_statement hv
      fun w _ hw hwc hmembership => promises_statement hwc fun x _ hx hxc hactive =>
      promises_statement hxc fun y _ hy hyc _ => ?_
    have hheldNow := ((hw hv).2.2 _ hheld).held
    have hrely := hx.trans hy
    refine promises_verifyAndWrite hyc hfree hfirst (fun parent hparent => ?_) hids
      (.inr ((hrely hwc).2.2 _ hheldNow).held) fun id hid => ?_
    · exact isMember_of_keeps (hparents parent hparent) ((hu ht).2.1.trans
        (hkeeps.trans ((hw.trans hrely) hv).2.1)).commits
    · obtain ⟨row, hrow, hsame, hproject⟩ := active_of_checks hmembership hid
      have hrowNow := ((hx hwc).2.2 _ hheldNow).rows row hrow hproject
      refine ⟨row, ((hrely hwc).2.2 _ hheldNow).rows row hrow hproject, hsame, hproject, ?_⟩
      rw [checkNotSuperseded] at hactive
      split_ifs at hactive with hnone
      simpa [hsame, hid] using List.filter_eq_nil_iff.mp hnone row hrowNow

end T3x.Repository
