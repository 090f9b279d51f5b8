import T3x.Repository.Advances

/-!
# The history of refs and of the log

Any number of sessions run their calls on one repository, and their statements
interleave in any order. As long as a ref exists, its head moves along its events, each
for a verified commit on the head before. An entry of the log is consumed by one commit
at most, and stays as it is from then on.
-/

namespace T3x.Repository

open Js T3x.Transition T3x.Storage Interleave

variable {sha256 : List UInt8 → JsString} {entries : JsString → InsertYOpsLogInput}
  {session : ℕ} {projectId refName : JsString} {requests : ℕ → Request}

/-! ## Runs -/

/-- What a call is given: objects without collisions, a commit of the project where a branch starts,
and a fresh identifier for an entry, which belongs to the project of its conversation. -/
def Request.Fits (sha256 : List UInt8 → JsString) (entries : JsString → InsertYOpsLogInput)
    (s : Store) : Request → Prop
  | .createTransitionCommit input => CollisionFree sha256 (input.objects ++ [input.commit])
  | .insertBranch _ input => ∀ head, input.headCommitHash = some head →
    isMember s input.projectId head = true
  | .insertYOpsLogEntry id input => entries id = input ∧
    ∀ project, conversationProject s input.conversationId = some project →
      project = input.projectId
  | _ => True

/-- Each call keeps its promise. -/
theorem promises_program {s : Store} (hs : Consistent sha256 entries s) {request : Request}
    (hfits : request.Fits sha256 entries s) :
    Promises sha256 entries session (request.program sha256 session) s := by
  cases request with
  | createTransitionCommit input => exact (promises_createTransitionCommit hs hfits).mapResult
  | recordRepositoryDecision record => exact promises_recordRepositoryDecision hs
  | recordRepositoryDecisionAuthorization record =>
    exact promises_recordRepositoryDecisionAuthorization hs
  | insertBranch branchId input => exact (promises_insertBranch hs hfits).mapResult
  | switchBranch projectId branchName => exact (promises_switchBranch hs).mapResult
  | deleteBranch projectId branchName => exact (promises_deleteBranch hs).mapResult
  | ensureMainBranch branchId projectId => exact (promises_ensureMainBranch hs).mapResult
  | insertYOpsLogEntry id input =>
    exact (promises_insertYOpsLogEntry hs hfits.1 hfits.2).mapResult
  | deleteYOpsLogEntry id => exact (promises_deleteYOpsLogEntry hs).mapResult
  | archiveYOpsLogEntryForUndo now id => exact (promises_archiveYOpsLogEntryForUndo hs).mapResult
  | supersedeActiveLLMSuggestions now conversationId =>
    exact (promises_supersedeActiveLLMSuggestions hs).mapResult
  | supersedeActiveUncommittedYOpsLogEntries now conversationId =>
    exact (promises_supersedeActiveUncommittedYOpsLogEntries hs).mapResult
  | supersedeYOpsLogEntryForRepair now conversationId yopsLogId =>
    exact (promises_supersedeYOpsLogEntryForRepair hs).mapResult

/-- The sessions with their calls on one store. -/
abbrev Sessions := World Store StorageError Unit ℕ

/-- A run of any actions. -/
abbrev Runs (w v : Sessions) : Prop := Reaches (fun _ _ => True) w v

/-- Each session begins a call that fits, on a consistent store. -/
structure Begins (sha256 : List UInt8 → JsString) (entries : JsString → InsertYOpsLogInput)
    (requests : ℕ → Request) (w : Sessions) : Prop where
  /-- The store is consistent. -/
  consistent : Consistent sha256 entries w.state
  /-- A session has the program of its call. -/
  calls : ∀ session, w.calls session = (requests session).program sha256 session
  /-- The calls fit. -/
  fits : ∀ session, (requests session).Fits sha256 entries w.state

variable {w v u : Sessions}

/-- In every run the store stays consistent, and the calls keep their promises. -/
theorem Begins.runs (h : Begins sha256 entries requests w) (hrun : Runs w v) :
    Consistent sha256 entries v.state ∧
      ∀ session, Promises sha256 entries session (v.calls session) v.state := by
  have hmeets := hrun.meets (Relies sha256 entries) (Does sha256 entries) (fun _ _ _ => True)
    (fun s t => Consistent sha256 entries s → Consistent sha256 entries t)
    (fun _ => Relies.refl) Relies.trans (fun hne hdoes => hdoes.relies hne)
    (fun hdoes _ => hdoes.consistent) (fun _ hs => hs) (fun hst htu hs => htu (hst hs))
    fun session => h.calls session ▸ promises_program h.consistent (h.fits session)
  exact ⟨hmeets.1 h.consistent, hmeets.2⟩

/-- An action after a run is a step of its session. -/
theorem Begins.does (h : Begins sha256 entries requests w) (hrun : Runs w v)
    (hstep : Step v session u) : Does sha256 entries session v.state u.state := by
  obtain ⟨hstep⟩ := hstep
  exact (((h.runs hrun).2 session).step Relies.refl hstep trivial).1

/-- A run keeps what is only added. -/
theorem Begins.keeps (h : Begins sha256 entries requests w) (hrun : Runs w v)
    (hlater : Runs v u) : Keeps v.state u.state := by
  induction hlater with
  | refl => exact .refl _
  | step hlater _ hstep ih => exact ih.trans (h.does (hrun.trans hlater) hstep).keeps

/-! ## A first commit -/

section genesis

open Independent

/-- The hash of the commit. -/
def genesisHash : JsString := List.replicate 64 99

/-- The hashes of the objects on the way from the commit, and of the commit. -/
def commitHash (input : List UInt8) : JsString :=
  if input = objectInput .commit mergeCommit then genesisHash else mergeHash input

/-- The objects on the way from the commit, with their kinds and hashes. -/
def genesisValues : List (ObjectKind × JsString × JsValue) :=
  [(.state, emptyStateHash, emptyBase), (.effect, mergeEffectHash, mergeEffect),
    (.statement, mergeProposalHash, mergeProposal),
    (.statement, mergeDecisionHash, mergeDecision), (.state, sourceHash, sourceState)]

/-- The rows of these objects. -/
def genesisObjects : List ObjectRow := genesisValues.map fun object =>
  ⟨js "sha256:" ++ object.2.1, object.1.text, expectedSchema object.1,
    object.2.2.encode ascendingFirst⟩

/-- What authorizes the commit. -/
def genesisFacts : StoredDecisionFacts where
  projectId := js "p"
  refName := js "main"
  decisionDigest := js "sha256:" ++ mergeDecisionHash
  policyUri := []
  policyDigest := []
  actorKind := js "human"
  actorId := js "a"
  outcome := js "accepted"
  observationScope := ⟨[], []⟩
  statementIssuers := []

/-- The content of an entry. -/
def genesisEntry : InsertYOpsLogInput where
  conversationId := js "c"
  projectId := js "p"
  source := js "llm"
  yops := .arr []

/-- An active entry. -/
def genesisRow : YOpsLogRow := { genesisEntry with
  id := js "y"
  supersededAt := none }

/-- A project without commits, whose first Decision is authorized. -/
def genesisStore : Store where
  objects := genesisObjects
  commits := []
  branches := [⟨js "b", js "p", js "main", none, none, none, true⟩]
  ledger := [genesisFacts]
  authorizations := [genesisFacts]
  conversations := [⟨js "c", js "p"⟩]
  yopsLog := [genesisRow]
  consumptions := []
  events := []
  locks := []

/-- The first commit, which consumes the entry. -/
def genesisInput : CreateTransitionCommitInput where
  projectId := js "p"
  refName := js "main"
  expectedHead := none
  commit := mergeCommit
  objects := []
  yopsLogIds := [js "y"]

/-- One session commits, the others supersede. -/
def genesisRequests (session : ℕ) : Request :=
  if session = 0 then .createTransitionCommit genesisInput
  else .supersedeActiveUncommittedYOpsLogEntries 1 (js "c")

/-- The sessions before they act. -/
def genesis : Sessions where
  state := genesisStore
  calls session := (genesisRequests session).program commitHash session

/-- The objects read back from their bytes, and have their kinds and hashes. -/
theorem read_genesis : ∀ object ∈ genesisValues, object.1 ≠ .commit ∧
    parseProtocolBytes (objectBytes object.2.2) = .ok object.2.2 ∧
    ∀ sha256, sha256 (objectInput object.1 object.2.2) =
        mergeHash (objectInput object.1 object.2.2) →
      describeProtocolObject sha256 object.2.2 = .ok (descriptorOf object.1 object.2.1) := by
  have hread : ∀ kind hash value, kind ≠ ObjectKind.commit →
      parseProtocolJsonBytes (objectBytes value) = .ok value →
      parseProtocolObject value = .ok value → part value "schema" = .str (expectedSchema kind) →
      mergeHash (objectInput kind value) = hash → kind ≠ .commit ∧
        parseProtocolBytes (objectBytes value) = .ok value ∧
        ∀ sha256, sha256 (objectInput kind value) = mergeHash (objectInput kind value) →
          describeProtocolObject sha256 value = .ok (descriptorOf kind hash) :=
    fun _ _ _ hkind hread hparse hschema hhash => ⟨hkind, bind_eq_ok_iff.mpr ⟨_, hread, hparse⟩,
      fun _ hsame => describe_of_hash hparse hschema (hsame.trans hhash)⟩
  have hreads := mergeEvaluated.reads
  refine List.forall_mem_cons.mpr ⟨?_, List.forall_mem_cons.mpr ⟨?_, List.forall_mem_cons.mpr
    ⟨?_, List.forall_mem_cons.mpr ⟨?_, List.forall_mem_singleton.mpr ?_⟩⟩⟩⟩
  · exact hread _ _ _ (by decide) (hreads _ (by simp)) (parse_stateOf (by decide) (by decide)) rfl
      (mergeHash_emptyBase mergeEvaluated)
  · exact hread _ _ _ (by decide) (hreads _ (by simp)) (parse_mergeEffect mergeEvaluated) rfl
      (if_pos rfl)
  · exact hread _ _ _ (by decide) (hreads _ (by simp)) (parse_mergeProposal mergeEvaluated) rfl
      (mergeHash_mergeProposal mergeEvaluated)
  · exact hread _ _ _ (by decide) (hreads _ (by simp)) (parse_mergeDecision mergeEvaluated) rfl
      (mergeHash_mergeDecision mergeEvaluated)
  · exact hread _ _ _ (by decide) (hreads _ (by simp)) (parse_stateOf (by decide) (by decide)) rfl
      (mergeHash_sourceState mergeEvaluated)

/-- The digests of the objects differ from each other and from that of the commit. -/
theorem nodup_genesis : (genesisHash :: genesisValues.map fun object => object.2.1).Nodup := by
  simp only [genesisHash, genesisValues, List.map_cons, List.map_nil, emptyStateHash, sourceHash,
    mergeEffectHash, mergeProposalHash, mergeDecisionHash]
  repeat rw [js_ofList]
  decide +kernel

/-- The objects are found by their digests, and no other is. -/
theorem findObject_genesis : (∀ object ∈ genesisValues,
    (findObject genesisObjects (js "sha256:" ++ object.2.1)).map
      (fun row => encodeUtf8 row.canonicalJson) = some (objectBytes object.2.2)) ∧
    findObject genesisObjects (js "sha256:" ++ genesisHash) = none := by
  obtain ⟨hfree, hunique⟩ := List.nodup_cons.mp nodup_genesis
  have hdigests : Table.Unique ObjectRow.digest genesisObjects := by
    have hmap := hunique.map (List.append_right_injective (js "sha256:"))
    rw [Table.Unique, genesisObjects, List.map_map]
    rwa [List.map_map] at hmap
  refine ⟨fun object hobject => ?_, List.find?_eq_none.mpr fun row hrow hsame => hfree ?_⟩
  · rw [findObject, hdigests.find?_eq (List.mem_map_of_mem hobject)]
    rfl
  · obtain ⟨object, hobject, rfl⟩ := List.mem_map.mp hrow
    rw [← List.append_cancel_left (of_decide_eq_true hsame)]
    exact List.mem_map_of_mem hobject

/-- What verification resolves under the hashes without that of the commit resolves under all. -/
theorem resolve_genesis {resolver : ObjectResolver} {requested object : JsValue}
    (hresolver : ∀ object ∈ genesisValues,
      resolver (descriptorOf object.1 object.2.1) = some (objectBytes object.2.2))
    (h : resolveProtocolObject mergeHash (getObject sourceStore) requested = .ok object) :
    resolveProtocolObject commitHash resolver requested = .ok object := by
  obtain ⟨d, bytes, hd, hget, ⟨hdescribe, hbytes⟩, hread⟩ := resolveProtocolObject_eq_ok_iff.mp h
  have hmem : (descriptorKey d, bytes) ∈ genesisValues.map fun object =>
      (descriptorKey (descriptorOf object.1 object.2.1), objectBytes object.2.2) :=
    Record.mem_of_get hget
  obtain ⟨stored, hstored, hsame⟩ := List.mem_map.mp hmem
  obtain ⟨-, rfl⟩ := Prod.mk.inj hsame
  obtain ⟨hkind, hread', hdescribe'⟩ := read_genesis stored hstored
  obtain rfl := Except.ok.inj (hread'.symm.trans hread)
  obtain rfl := Except.ok.inj ((hdescribe' _ rfl).symm.trans hdescribe)
  have hhash : commitHash (objectInput stored.1 stored.2.2) =
      mergeHash (objectInput stored.1 stored.2.2) :=
    if_neg fun hsame => hkind (digestInput_inj hsame).1
  exact resolveProtocolObject_eq_ok_iff.mpr
    ⟨_, _, hd, hresolver stored hstored, ⟨hdescribe' _ hhash, hbytes⟩, hread⟩

/-- The commit is verified with the objects. -/
theorem verify_genesis : ∃ verified, verified.commit = mergeCommit ∧
    verifyInput commitHash genesisInput genesisStore = .ok verified := by
  obtain ⟨verified, hverified⟩ := verifyCommitIntegrity_eq_ok_iff.mpr ⟨_, _, _, _,
    intact_merge mergeEvaluated get_sourceStore, fun input hinput =>
      List.mem_singleton.mp hinput ▸ ⟨sourceState, resolves_source mergeEvaluated⟩⟩
  refine ⟨verified, commit_of_verifyCommitIntegrity hverified, bind_eq_ok_iff.mpr ⟨_, rfl,
    ofProtocol_eq_ok_iff.mpr (bind_eq_ok_iff.mpr ⟨_, parse_mergeCommit mergeEvaluated, ?_⟩)⟩⟩
  refine (verifyCommitIntegrity_of_requests hverified fun _ _ _ => resolve_genesis ?_).1
  intro object hobject
  have hmember : databaseResolver genesisStore (js "p") (descriptorOf object.1 object.2.1) =
      (findObject genesisObjects (js "sha256:" ++ object.2.1)).map
        fun row => encodeUtf8 row.canonicalJson := by
    rw [databaseResolver, if_neg]
    · rfl
    · simp [descriptorOf, (read_genesis object hobject).1]
  exact hmember.trans (findObject_genesis.1 object hobject)

/-- The commit is described and stored. -/
theorem store_genesis :
    describeCommitV2 commitHash mergeCommit = .ok (descriptorOf .commit genesisHash) ∧
      ∃ row, persistTransitionObjects commitHash ([] ++ [mergeCommit]) genesisObjects =
        .ok (genesisObjects ++ [row]) := by
  have hcommit := parse_mergeCommit mergeEvaluated
  obtain ⟨hparse, hschema⟩ := object_of_parseCommitV2 hcommit
  have hdescribe : describeProtocolObject commitHash mergeCommit =
      .ok (descriptorOf .commit genesisHash) := describe_of_hash hparse hschema (if_pos rfl)
  have hbytes := canonicalProtocolBytes_eq (isUnicode_of_parse hparse)
  obtain ⟨text, htext, htextBytes⟩ := canonicalProtocolBytes_eq_ok_iff.mp hbytes
  obtain ⟨row, hrow, hdigest⟩ : ∃ row, serializeTransitionObject commitHash mergeCommit = .ok row ∧
      row.digest = js "sha256:" ++ genesisHash := by
    refine ⟨⟨_, ObjectKind.text .commit, commitV2Schema, text⟩, bind_eq_ok_iff.mpr
      ⟨_, ofProtocol_eq_ok_iff.mpr hdescribe, bind_eq_ok_iff.mpr ⟨_, ofProtocol_eq_ok_iff.mpr
        (canonicalProtocolObjectBytes_eq_ok_iff.mpr ⟨hparse, hbytes⟩), ?_⟩⟩, rfl⟩
    rw [← htextBytes, decodeUtf8_encodeUtf8 (isWellFormed_canonical htext) (head_canonical htext)]
    rfl
  have hpersist : persistRow genesisObjects row = .ok (genesisObjects ++ [row]) := by
    rw [persistRow, hdigest, findObject_genesis.2]
  refine ⟨ofProtocol_eq_ok_iff.mpr (bind_eq_ok_iff.mpr ⟨_, hcommit, hdescribe⟩), row,
    bind_eq_ok_iff.mpr ⟨[row], ?_, ?_⟩⟩
  · rw [List.nil_append, List.mapM_cons, hrow]
    rfl
  · change List.foldlM persistRow genesisObjects (sortBy _ [row]) = _
    rw [sortBy, List.mergeSort_singleton, List.foldlM_cons, hpersist]
    rfl

/-- The digest of the first commit. -/
def genesisDigest : JsString := js "sha256:" ++ genesisHash

/-- A property that the ref and the entry stay. -/
def Stays (s : Store) : Prop :=
  (refHead s (js "p") (js "main")).isSome = true ∧ ∃ row ∈ s.yopsLog, row.id = js "y"

section alone

variable {s t : Store} {α β : Type} {q : Call β}

/-- A statement that succeeds is taken alone. -/
theorem alone_statement {read : Store → Except StorageError α} {rest : α → Call β} {a : α}
    (hs : Stays s) (hread : read s = .ok a)
    (h : Alone (fun _ s => Stays s) (rest a) s q t) :
    Alone (fun _ s => Stays s) (statement session read >>= rest) s q t :=
  .act rfl hs (by
    dsimp only
    rw [hread]
    exact h)

/-- A transaction that succeeds commits what it writes. -/
theorem alone_commit {write : Store → Except StorageError (α × Store)} {a : α} (hs : Stays s)
    (hwrite : write s = .ok (a, t)) : Alone (fun _ s => Stays s) (commit session write) s
      (.done (.ok a)) (t.release session) := by
  refine .act rfl hs ?_
  rw [hwrite]
  exact .refl

end alone

/-- The first commit is created. -/
theorem alone_genesis : ∃ objects, Alone (fun _ s => Stays s)
    ((genesisRequests 0).program commitHash 0) genesisStore (.done (.ok ())) { genesisStore with
      objects := objects
      commits := [⟨js "p", genesisDigest, commitV2MediaType⟩]
      branches := [⟨js "b", js "p", js "main", none, some genesisDigest, none, true⟩]
      consumptions := [⟨js "p", js "y", genesisDigest⟩]
      events := [⟨js "p", js "main", none, genesisDigest⟩] } := by
  obtain ⟨verified, hcommit, hverified⟩ := verify_genesis
  obtain ⟨hdescribe, row, hrow⟩ := store_genesis
  have hstays : Stays genesisStore := ⟨rfl, genesisRow, List.mem_singleton_self _, rfl⟩
  have hids : sortBy compareCodeUnits (distinct genesisInput.yopsLogIds) = [js "y"] := by
    simp [genesisInput, distinct, sortBy]
  have hparents : parentDigests genesisInput.commit = [] := rfl
  have hfirst : firstParent genesisInput.commit = genesisInput.expectedHead := rfl
  have hnone : sortBy compareCodeUnits (distinct (parentDigests genesisInput.commit)) = [] := by
    simp [hparents, distinct, sortBy]
  have hauthorized : checkAuthorized genesisInput.projectId genesisInput.refName
      (digestOf (part verified.commit "decision")) genesisStore = .ok () := by
    rw [hcommit]
    rfl
  have hpersist : persistTransitionObjects commitHash (genesisInput.objects ++ [verified.commit])
      genesisStore.objects = .ok (genesisObjects ++ [row]) := hcommit ▸ hrow
  refine ⟨genesisObjects ++ [row],
    Alone.mapResult (f := fun _ => ()) (q := .done (.ok genesisDigest)) ?_⟩
  rw [createTransitionCommit, if_neg (not_not.mpr hfirst), hnone, hids]
  refine alone_statement hstays rfl ?_
  refine .act rfl hstays (alone_statement hstays rfl (alone_statement hstays rfl
    (alone_statement hstays rfl (alone_statement hstays hverified ?_))))
  refine alone_statement hstays (hcommit ▸ hdescribe) (alone_statement hstays hauthorized
    (.act rfl hstays ?_))
  simp only [writeCommit, hpersist]
  exact .refl

/-- The entry is superseded. -/
theorem alone_supersede : Alone (fun _ s => Stays s)
    ((genesisRequests 1).program commitHash 1) genesisStore (.done (.ok ())) { genesisStore with
      yopsLog := [{ genesisRow with supersededAt := some 1 }] } := by
  have hstays : Stays genesisStore := ⟨rfl, genesisRow, List.mem_singleton_self _, rfl⟩
  refine Alone.mapResult (f := fun _ => ()) (q := .done (.ok [js "y"])) ?_
  exact .act rfl hstays (.act rfl hstays (.act rfl hstays (.act rfl hstays .refl)))

/-- The sessions begin. -/
theorem begins_genesis :
    Begins commitHash (fun _ => genesisEntry) genesisRequests genesis where
  consistent := {
    graph := ⟨List.nodup_singleton _, by simp [genesis, genesisStore],
      by simp [genesis, genesisStore], by simp [genesis, genesisStore]⟩
    decisions := ⟨List.nodup_singleton _, fun _ h => h⟩
    log := ⟨List.nodup_singleton _, List.forall_mem_singleton.mpr rfl,
      List.forall_mem_singleton.mpr rfl, List.nodup_nil, by simp [genesis, genesisStore],
      by simp [genesis, genesisStore]⟩
    locks := by simp [genesis, genesisStore] }
  calls _ := rfl
  fits session := by
    unfold genesisRequests
    split_ifs
    · intro object hobject object' hobject' d d' bytes bytes' h h' _
      obtain rfl := List.mem_singleton.mp hobject
      obtain rfl := List.mem_singleton.mp hobject'
      obtain rfl := Except.ok.inj (h.1.symm.trans h'.1)
      rw [Except.ok.inj (h.2.symm.trans h'.2)]
    · exact trivial

end genesis

/-! ## Refs -/

/-- One way along events after the other is a way. -/
theorem Leads.append {head head' head'' : Option JsString} {events events' : List BranchAdvancedEvent}
    (h : Leads head events head') (h' : Leads head' events' head'') :
    Leads head (events ++ events') head'' := by
  induction events generalizing head with
  | nil => exact h ▸ h'
  | cons event events ih => exact ⟨h.1, ih h.2⟩

/-- The events that are new after two stretches. -/
theorem newEvents_trans {s t u : Store} (h : s.events <+: t.events) (h' : t.events <+: u.events) :
    newEvents s u = newEvents s t ++ newEvents t u := by
  obtain ⟨added, hadded⟩ := h
  obtain ⟨added', hadded'⟩ := h'
  rw [newEvents_of_append hadded.symm, newEvents_of_append hadded'.symm]
  exact newEvents_of_append (by rw [← List.append_assoc, hadded, hadded'])

/-- As long as a ref exists, its head moves along its events. -/
theorem Begins.leads (h : Begins sha256 entries requests w) (hrun : Runs w v)
    (hstay : Reaches (fun _ s => (refHead s projectId refName).isSome = true) v u)
    {head head' : Option JsString} (hhead : refHead v.state projectId refName = some head)
    (hhead' : refHead u.state projectId refName = some head') :
    Leads head (eventsOf projectId refName (newEvents v.state u.state)) head' := by
  induction hstay generalizing head' with
  | refl =>
    rw [newEvents_of_eq rfl]
    exact Option.some.inj (hhead'.symm.trans hhead)
  | @step x u i hstay hallowed hstep ih =>
    obtain ⟨middle, hmiddle⟩ := Option.isSome_iff_exists.mp hallowed
    have hbefore : Runs v x := hstay.mono fun _ _ _ => trivial
    have hdoes := h.does (hrun.trans hbefore) hstep
    rw [newEvents_trans (h.keeps hrun hbefore).events hdoes.keeps.events, eventsOf,
      List.filter_append]
    exact (ih hmiddle).append (hdoes.refs _ _ _ _ hmiddle hhead')

/-- In any run, as long as a ref exists, its head moves along its events without a gap: each is
for a stored commit of the project whose first parent is the head before, and whose Decision is
authorized for this ref and for no other. -/
theorem ref_history (h : Begins sha256 entries requests w) (hrun : Runs w v)
    (hstay : Reaches (fun _ s => (refHead s projectId refName).isSome = true) v u)
    {head head' : Option JsString} (hhead : refHead v.state projectId refName = some head)
    (hhead' : refHead u.state projectId refName = some head') :
    Leads head (eventsOf projectId refName (newEvents v.state u.state)) head' ∧
      ∀ event ∈ eventsOf projectId refName (newEvents v.state u.state), ∃ commit,
        Advanced sha256 u.state event commit ∧ ∀ facts ∈ u.state.authorizations,
          facts.decisionDigest = digestOf (part commit "decision") →
            facts.projectId = projectId ∧ facts.refName = refName := by
  refine ⟨h.leads hrun hstay hhead hhead', fun event hevent => ?_⟩
  have hconsistent := (h.runs (hrun.trans (hstay.mono fun _ _ _ => trivial))).1
  obtain ⟨hnew, href⟩ := List.mem_filter.mp hevent
  simp only [Bool.and_eq_true, decide_eq_true_eq] at href
  obtain ⟨commit, hadvanced⟩ := hconsistent.graph.events event (List.drop_subset _ _ hnew)
  refine ⟨commit, hadvanced, fun facts hfacts hdigest => ?_⟩
  obtain ⟨facts', hfacts', hproject, hname, hdigest'⟩ := hadvanced.authorized
  obtain rfl := hconsistent.decisions.ledger.eq (hconsistent.decisions.authorizations _ hfacts)
    (hconsistent.decisions.authorizations _ hfacts') (hdigest.trans hdigest'.symm)
  exact ⟨hproject.trans href.1, hname.trans href.2⟩

/-- The first commit moves the ref from no head to itself. -/
theorem ref_history_genesis : ∃ u : Sessions, Runs genesis u ∧
    refHead u.state (js "p") (js "main") = some (some genesisDigest) ∧
    Leads none (eventsOf (js "p") (js "main") (newEvents genesis.state u.state))
      (some genesisDigest) ∧
    ∃ commit, Advanced commitHash u.state ⟨js "p", js "main", none, genesisDigest⟩ commit := by
  obtain ⟨objects, hcommit⟩ := alone_genesis
  have hrun := hcommit.reaches (w := genesis) 0 rfl rfl
  have hhead : refHead genesis.state (js "p") (js "main") = some none := rfl
  obtain ⟨hleads, hevents⟩ :=
    ref_history begins_genesis .refl (hrun.mono fun _ _ h => h.1) hhead rfl
  obtain ⟨commit, hadvanced, -⟩ := hevents _
    (List.mem_filter.mpr ⟨List.mem_singleton_self _, by simp⟩)
  exact ⟨_, hrun.mono fun _ _ _ => trivial, rfl, hleads, commit, hadvanced⟩

/-! ## The log -/

/-- In any run an entry is consumed by one commit at most, and a consumed entry stays as it is: it
is in the log, in its project, and never superseded. -/
theorem consumed_once (h : Begins sha256 entries requests w) (hrun : Runs w v)
    (hlater : Runs v u) : v.state.consumptions <+: u.state.consumptions ∧
      Table.Unique (fun row : ConsumptionRow => (row.projectId, row.yopsLogId))
        u.state.consumptions ∧
      ∀ consumption ∈ v.state.consumptions,
        isMember u.state consumption.projectId consumption.commitDigest = true ∧
        ∃ row ∈ v.state.yopsLog, row ∈ u.state.yopsLog ∧ row.id = consumption.yopsLogId ∧
          row.projectId = consumption.projectId ∧ row.supersededAt = none := by
  have hbefore := (h.runs hrun).1.log
  have hafter := (h.runs (hrun.trans hlater)).1.log
  have hkeeps := (h.keeps hrun hlater).consumptions
  refine ⟨hkeeps, hafter.once, fun consumption hconsumption => ?_⟩
  obtain ⟨row, hrow, hid, hproject, hnone⟩ := hbefore.consumed consumption hconsumption
  obtain ⟨row', hrow', hid', -, hnone'⟩ :=
    hafter.consumed consumption (hkeeps.subset hconsumption)
  have hcontent := (hafter.content row' hrow').trans
    ((congrArg entries (hid'.trans hid.symm)).trans (hbefore.content row hrow).symm)
  have hsame : row' = row := by
    obtain ⟨content, id, superseded⟩ := row
    obtain ⟨content', id', superseded'⟩ := row'
    simp only at hid hid' hnone hnone' hcontent
    rw [hcontent, hid', ← hid, hnone', ← hnone]
  exact ⟨hafter.commits consumption (hkeeps.subset hconsumption),
    row, hrow, hsame ▸ hrow', hid, hproject, hnone⟩

/-- The first commit consumes the entry, which stays. -/
theorem consumed_once_genesis : ∃ u : Sessions, Runs genesis u ∧
    isMember u.state (js "p") genesisDigest = true ∧
    ∃ row ∈ u.state.yopsLog, row.id = js "y" ∧ row.supersededAt = none := by
  obtain ⟨objects, hcommit⟩ := alone_genesis
  have hrun := (hcommit.reaches (w := genesis) 0 rfl rfl).mono fun _ _ _ => trivial
  obtain ⟨hmember, row, -, hrow, hid, -, hnone⟩ :=
    (consumed_once begins_genesis hrun .refl).2.2 _ (List.mem_singleton_self _)
  exact ⟨_, hrun, hmember, row, hrow, hid, hnone⟩

/-- As long as an entry is in the log, it stays as it is, or is superseded once; an entry that is
superseded is not consumed by a commit of its project. -/
theorem superseded_once (h : Begins sha256 entries requests w) (hrun : Runs w v) {id : JsString}
    (hstay : Reaches (fun _ s => ∃ row ∈ s.yopsLog, row.id = id) v u) {row row' : YOpsLogRow}
    (hrow : row ∈ v.state.yopsLog) (hid : row.id = id) (hrow' : row' ∈ u.state.yopsLog)
    (hid' : row'.id = id) : (row' = row ∨ row.supersededAt = none ∧
        ∃ now, row' = { row with supersededAt := some now }) ∧
      (row'.supersededAt ≠ none → ∀ consumption ∈ u.state.consumptions,
        ¬ (consumption.projectId = row'.projectId ∧ consumption.yopsLogId = id)) := by
  constructor
  · induction hstay generalizing row' with
    | refl => exact .inl ((h.runs hrun).1.log.ids.eq hrow' hrow (hid'.trans hid.symm))
    | @step x u i hstay hallowed hstep ih =>
      obtain ⟨middle, hmiddle, hmiddleId⟩ := hallowed
      have hbefore : Runs v x := hstay.mono fun _ _ _ => trivial
      have hdoes := h.does (hrun.trans hbefore) hstep
      have hfollows := hdoes.log middle hmiddle row' hrow' (hid'.trans hmiddleId.symm)
      rcases ih hmiddle hmiddleId with rfl | ⟨hnone, now, rfl⟩
      · exact hfollows
      · rcases hfollows with rfl | ⟨hsuperseded, -⟩
        · exact .inr ⟨hnone, now, rfl⟩
        · cases hsuperseded
  · intro hsuperseded consumption hconsumption ⟨hproject, hsame⟩
    have hlog := (h.runs (hrun.trans (hstay.mono fun _ _ _ => trivial))).1.log
    obtain ⟨other, hother, hotherId, -, hnone⟩ := hlog.consumed consumption hconsumption
    obtain rfl := hlog.ids.eq hother hrow' (hotherId.trans (hsame.trans hid'.symm))
    exact hsuperseded hnone

/-- The entry is superseded once. -/
theorem superseded_once_genesis : ∃ u : Sessions, Runs genesis u ∧ ∃ row ∈ u.state.yopsLog,
    row.supersededAt = some 1 ∧ (row = genesisRow ∨ genesisRow.supersededAt = none ∧
      ∃ now, row = { genesisRow with supersededAt := some now }) := by
  have hrun := alone_supersede.reaches (w := genesis) 1 rfl rfl
  have honce := superseded_once begins_genesis .refl (hrun.mono fun _ _ h => h.2)
    (List.mem_singleton_self genesisRow) rfl (List.mem_singleton_self _) rfl
  exact ⟨_, hrun.mono fun _ _ _ => trivial, _, List.mem_singleton_self _, rfl, honce.1⟩

end T3x.Repository
