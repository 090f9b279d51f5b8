import T3x.Storage.Memberships
import T3x.Table

/-!
# Requests are stored once

Whatever calls run beside one another, the identity of a request names at most one
row, which never changes. A call that succeeds returns what is stored, and it says
what the call asked for; a call whose identity is taken by other facts fails and
writes nothing; a batch of statements is stored as a whole or not at all.
-/

namespace T3x.Storage

open Js T3x.Transition Interleave

/-! ## What every step keeps -/

/-- The unique indexes, and the reference of a preparation to its transition. -/
structure Consistent (s : RequestStore) : Prop where
  /-- The name of a transition is a key. -/
  transitions : Table.Unique ProposalRow.transitionId s.proposals
  /-- A request names one transition. -/
  requests : Table.Unique ProposalRow.request s.proposals
  /-- A preparation is that of a transition. -/
  prepared : ∀ preparation ∈ s.preparations,
    ∃ row ∈ s.proposals, row.transitionId = preparation.transitionId
  /-- A transition has a statement once. -/
  statements : Table.Unique (fun row : StatementRow => row.facts.statement) s.statements
  /-- A request names one statement. -/
  statementRequests : Table.Unique (fun row : StatementRow => row.facts.request) s.statements
  /-- A request names one result of a command. -/
  receipts : Table.Unique (fun row : ReceiptRow => row.facts.request) s.receipts

/-- Rows stay as they are, and so do the preparations of the transitions. -/
structure Keeps (s t : RequestStore) : Prop where
  /-- The objects. -/
  objects : s.objects <+: t.objects
  /-- The transitions. -/
  proposals : s.proposals <+: t.proposals
  /-- The preparations of the transitions. -/
  preparation : ∀ row ∈ s.proposals, getTransitionProposalPreparation t row.transitionId =
    getTransitionProposalPreparation s row.transitionId
  /-- The statements. -/
  statements : s.statements <+: t.statements
  /-- The results of commands. -/
  receipts : s.receipts <+: t.receipts

/-- A step from a consistent store leads to a consistent one that keeps its rows. -/
def Evolves (s t : RequestStore) : Prop := Consistent s → Consistent t ∧ Keeps s t

variable {s t u : RequestStore}

/-- A store keeps its own rows. -/
theorem Keeps.refl (s : RequestStore) : Keeps s s :=
  ⟨List.prefix_rfl, List.prefix_rfl, fun _ _ => rfl, List.prefix_rfl, List.prefix_rfl⟩

/-- What is kept twice is kept. -/
theorem Keeps.trans (h : Keeps s t) (h' : Keeps t u) : Keeps s u where
  objects := h.objects.trans h'.objects
  proposals := h.proposals.trans h'.proposals
  preparation row hrow :=
    (h'.preparation row (h.proposals.subset hrow)).trans (h.preparation row hrow)
  statements := h.statements.trans h'.statements
  receipts := h.receipts.trans h'.receipts

/-- No step is a step. -/
theorem Evolves.refl (s : RequestStore) : Evolves s s := fun h => ⟨h, .refl s⟩

/-- Steps follow one another. -/
theorem Evolves.trans (h : Evolves s t) (h' : Evolves t u) : Evolves s u := fun hs =>
  have ht := h hs
  ⟨(h' ht.1).1, ht.2.trans (h' ht.1).2⟩

/-! ## What the transactions write -/

/-- New objects leave the other tables as they are. -/
theorem evolves_objects {objects : List ObjectRow} (h : s.objects <+: objects) :
    Evolves s { s with objects := objects } := fun hs =>
  ⟨⟨hs.transitions, hs.requests, hs.prepared, hs.statements, hs.statementRequests, hs.receipts⟩,
    ⟨h, List.prefix_rfl, fun _ _ => rfl, List.prefix_rfl, List.prefix_rfl⟩⟩

/-- A transition is added with its preparation, or not at all. -/
theorem evolves_insertProposal {row : ProposalRow} {preparation : Option (JsString × JsString)} :
    Evolves s (insertProposal row preparation s) := by
  intro hs
  rw [insertProposal]
  split
  · exact ⟨hs, .refl s⟩
  · rename_i hfree
    simp only [List.any_eq_true, Bool.or_eq_true, decide_eq_true_eq, not_exists, not_and,
      not_or] at hfree
    have htransitions := hs.transitions.append fun old hold => (hfree old hold).1
    have hrequests := hs.requests.append fun old hold => (hfree old hold).2
    -- No preparation can be there before the transition is.
    have hnone : getTransitionProposalPreparation s row.transitionId = none := by
      rw [getTransitionProposalPreparation, List.find?_eq_none]
      intro old hold hsame
      obtain ⟨other, hother, hid⟩ := hs.prepared old hold
      exact (hfree other hother).1 (hid.trans (of_decide_eq_true hsame))
    have hkept : ∀ old ∈ s.preparations,
        ∃ other ∈ s.proposals ++ [row], other.transitionId = old.transitionId := by
      intro old hold
      obtain ⟨other, hother, hid⟩ := hs.prepared old hold
      exact ⟨other, List.mem_append_left _ hother, hid⟩
    cases preparation with
    | none =>
      exact ⟨⟨htransitions, hrequests, hkept, hs.statements, hs.statementRequests, hs.receipts⟩,
        ⟨List.prefix_rfl, List.prefix_append _ _, fun _ _ => rfl, List.prefix_rfl,
          List.prefix_rfl⟩⟩
    | some facts =>
      simp only
      split
      · exact ⟨⟨htransitions, hrequests, hkept, hs.statements, hs.statementRequests, hs.receipts⟩,
          ⟨List.prefix_rfl, List.prefix_append _ _, fun _ _ => rfl, List.prefix_rfl,
            List.prefix_rfl⟩⟩
      · refine ⟨⟨htransitions, hrequests, fun old hold => ?_, hs.statements,
          hs.statementRequests, hs.receipts⟩, ⟨List.prefix_rfl, List.prefix_append _ _,
            fun other hother => ?_, List.prefix_rfl, List.prefix_rfl⟩⟩
        · rcases List.mem_append.mp hold with hold | hold
          · exact hkept old hold
          · rw [List.mem_singleton.mp hold]
            exact ⟨row, by simp, rfl⟩
        · rw [getTransitionProposalPreparation, List.find?_append]
          have hother' : ¬row.transitionId = other.transitionId :=
            fun hsame => (hfree other hother).1 hsame.symm
          simp [getTransitionProposalPreparation, hother']

/-- Statements are added one after the other, or left out. -/
theorem evolves_insertStatements {now : ℤ} {facts : List StatementFacts} :
    Evolves s { s with statements := facts.foldl (insertStatement now) s.statements } := by
  induction facts generalizing s with
  | nil => exact .refl s
  | cons first facts ih =>
    have hfirst : Evolves s { s with statements := insertStatement now s.statements first } := by
      intro hs
      rw [insertStatement]
      split
      · exact ⟨hs, .refl s⟩
      · rename_i hfree
        simp only [List.any_eq_true, Bool.or_eq_true, decide_eq_true_eq, not_exists, not_and,
          not_or] at hfree
        exact ⟨⟨hs.transitions, hs.requests, hs.prepared,
          hs.statements.append fun old hold => (hfree old hold).1,
          hs.statementRequests.append fun old hold => (hfree old hold).2, hs.receipts⟩,
          ⟨List.prefix_rfl, List.prefix_rfl, fun _ _ => rfl, List.prefix_append _ _,
            List.prefix_rfl⟩⟩
    exact hfirst.trans ih

/-- A receipt is added, or left out. -/
theorem evolves_insertReceipt {row : ReceiptRow} : Evolves s (insertReceipt row s) := by
  intro hs
  rw [insertReceipt]
  split
  · exact ⟨hs, .refl s⟩
  · rename_i hfree
    simp only [List.any_eq_true, decide_eq_true_eq, not_exists, not_and] at hfree
    exact ⟨⟨hs.transitions, hs.requests, hs.prepared, hs.statements, hs.statementRequests,
      hs.receipts.append hfree⟩, ⟨List.prefix_rfl, List.prefix_rfl, fun _ _ => rfl,
        List.prefix_rfl, List.prefix_append _ _⟩⟩

/-! ## Reading -/

variable {sha256 : List UInt8 → JsString}

/-- Loading an object reads only. -/
theorem readOnly_loadObject {descriptor : JsValue} : ReadOnly (loadObject sha256 descriptor) := by
  refine readOnly_query.bind fun stored => ?_
  cases stored with
  | none => exact readOnly_done
  | some row =>
    refine readOnly_lift.bind fun object => readOnly_lift.bind fun actual => ?_
    split <;> exact readOnly_done

/-- Resolving the graph of a transition reads only. -/
theorem readOnly_resolveTransitionProposalGraph {projectId transitionId : JsString} :
    ReadOnly (resolveTransitionProposalGraph sha256 projectId transitionId) := by
  refine readOnly_query.bind fun found => ?_
  cases found with
  | none => exact readOnly_done
  | some membership =>
    refine readOnly_lift.bind fun _ => readOnly_query.bind fun preparation => ?_
    refine readOnly_lift.bind fun _ => readOnly_loadObject.bind fun proposal => ?_
    refine readOnly_lift.bind fun _ => readOnly_loadObject.bind fun effect => ?_
    refine readOnly_lift.bind fun _ => readOnly_loadObject.bind fun base => ?_
    refine readOnly_loadObject.bind fun result => readOnly_lift.bind fun _ => readOnly_done

/-! ## Calls that succeed -/

/-- What a call promises: its steps are within the guarantee, and its result has the
postcondition, while the others evolve the store. -/
def Promises {α : Type} (guar : RequestStore → RequestStore → Prop)
    (post : Except StorageError α → RequestStore → Prop) (p : Prog RequestStore StorageError α)
    (s : RequestStore) : Prop := Meets (fun _ _ => True) Evolves guar post p s

/-- What is stored of a request for a transition. -/
def ProposalStored (sha256 : List UInt8 → JsString)
    (input : CreateTransitionProposalMembershipInput) (row : ProposalRow) (s : RequestStore) :
    Prop :=
  row ∈ s.proposals ∧ proposalFacts sha256 input = .ok row.facts ∧
    preparationFactsEqual (getTransitionProposalPreparation s row.transitionId) input = true

/-- What is stored of a request for a transition stays. -/
theorem ProposalStored.keeps {input : CreateTransitionProposalMembershipInput} {row : ProposalRow}
    (h : ProposalStored sha256 input row s) (hkeeps : Keeps s t) :
    ProposalStored sha256 input row t :=
  ⟨hkeeps.proposals.subset h.1, h.2.1, by rw [hkeeps.preparation row h.1]; exact h.2.2⟩

/-- A stored membership that agrees with the request is returned. -/
theorem promises_compareProposal {facts : ProposalFacts}
    {input : CreateTransitionProposalMembershipInput} {stored : ProposalRow} {reused : Bool}
    (hs : Consistent s) (hfacts : proposalFacts sha256 input = .ok facts)
    (hstored : stored ∈ s.proposals) :
    Promises Evolves (fun result t => ∀ response, result = .ok response →
      ProposalStored sha256 input response.1 t) (compareProposal facts input stored reused) s := by
  refine meets_query fun t ht => ⟨.refl t, ?_⟩
  obtain ⟨hconsistent, hkeeps⟩ := ht hs
  split
  · exact fun _ _ _ h => nomatch h
  · rename_i hsame
    rw [not_or, not_not, Bool.not_eq_false] at hsame
    intro u hu response hresponse
    obtain rfl := Except.ok.inj hresponse
    have hthere : ProposalStored sha256 input stored t :=
      ⟨hkeeps.proposals.subset hstored, by rw [hsame.1]; exact hfacts, hsame.2⟩
    exact hthere.keeps (hu hconsistent).2

/-- A request for a transition returns what is stored of it. -/
theorem promises_createTransitionProposalMembership {transitionId : JsString} {now : ℤ}
    {input : CreateTransitionProposalMembershipInput} (hs : Consistent s) :
    Promises Evolves (fun result t => ∀ response, result = .ok response →
      ProposalStored sha256 input response.1 t)
      (createTransitionProposalMembership sha256 transitionId now input) s := by
  have hfail : ∀ (e : StorageError) (t : RequestStore) (response : ProposalRow × Bool),
      Except.error e = .ok response → ProposalStored sha256 input response.1 t :=
    fun _ _ _ h => nomatch h
  refine meets_lift (fun _ _ => meets_lift (fun facts hfacts => ?_) fun e t _ _ => hfail e t)
    fun e t _ _ => hfail e t
  refine meets_query fun t ht => ⟨.refl t, ?_⟩
  have hconsistent := (ht hs).1
  split
  · rename_i row hrow
    exact promises_compareProposal hconsistent hfacts (List.mem_of_find?_eq_some hrow)
  · refine meets_atomically (fun v _ w hv hw => ?_) fun v e _ _ => ⟨.refl v, fun _ _ => hfail e _⟩
    obtain ⟨objects, hobjects, hwritten⟩ := bind_eq_ok_iff.mp hw
    obtain rfl := (Prod.mk.inj (Except.ok.inj hwritten)).2
    have hstep : Evolves v (insertProposal ⟨transitionId, facts, now⟩ (preparationOf input)
        { v with objects := objects }) :=
      (evolves_objects (prefix_of_persistTransitionObjects sha256 hobjects)).trans
        evolves_insertProposal
    have hinserted := (hstep (hv hconsistent).1).1
    refine ⟨hstep, meets_query fun x hx => ⟨.refl x, ?_⟩⟩
    split
    · exact fun y _ => hfail _ y
    · rename_i stored hstored
      exact promises_compareProposal (hx hinserted).1 hfacts (List.mem_of_find?_eq_some hstored)

/-- The statements of a transition are stored ones. -/
theorem mem_statementsOf {transitionId : JsString} {row : StatementRow} :
    row ∈ statementsOf s transitionId ↔
      row ∈ s.statements ∧ row.facts.transitionId = transitionId := by
  rw [statementsOf, (sortBy_perm _ _).mem_iff, List.mem_filter, decide_eq_true_eq]

/-- A batch is verified when each of its facts is that of a stored row. -/
theorem verifyStoredBatch_eq_ok {batch : List StatementFacts} {stored rows : List StatementRow}
    (h : verifyStoredBatch batch stored = .ok rows) :
    rows.map StatementRow.facts = batch ∧ ∀ row ∈ rows, row ∈ stored := by
  have hall := mapM_eq_ok_iff.mp h
  clear h
  induction hall with
  | nil => exact ⟨rfl, fun _ h => nomatch h⟩
  | @cons facts row batch rows hrow _ ih =>
    split at hrow
    · cases hrow
    · rename_i found hfound
      split at hrow
      · rename_i hfacts
        obtain rfl := Except.ok.inj hrow
        refine ⟨by rw [List.map_cons, hfacts, ih.1], fun other hother => ?_⟩
        rcases List.mem_cons.mp hother with rfl | hother
        · exact List.mem_of_find?_eq_some hfound
        · exact ih.2 other hother
      · cases hrow

/-- What is stored of a batch of statements. -/
def StatementsStored (sha256 : List UInt8 → JsString)
    (inputs : List RecordTransitionStatementMembershipInput) (rows : List StatementRow)
    (s : RequestStore) : Prop :=
  inputs.mapM (statementFacts sha256) = .ok (rows.map StatementRow.facts) ∧
    ∀ row ∈ rows, row ∈ s.statements

/-- What is stored of a batch stays. -/
theorem StatementsStored.keeps {inputs : List RecordTransitionStatementMembershipInput}
    {rows : List StatementRow} (h : StatementsStored sha256 inputs rows s) (hkeeps : Keeps s t) :
    StatementsStored sha256 inputs rows t :=
  ⟨h.1, fun row hrow => hkeeps.statements.subset (h.2 row hrow)⟩

/-- A step leaves the statements as they are, or the whole batch is stored after it. -/
def StoresWhole (sha256 : List UInt8 → JsString)
    (inputs : List RecordTransitionStatementMembershipInput) (s t : RequestStore) : Prop :=
  t.statements = s.statements ∨ ∃ rows, StatementsStored sha256 inputs rows t

/-- What a verified batch says is stored. -/
theorem statementsStored_of_verify {inputs : List RecordTransitionStatementMembershipInput}
    {batch : List StatementFacts} {rows : List StatementRow} {transitionId : JsString}
    (hbatch : inputs.mapM (statementFacts sha256) = .ok batch)
    (h : verifyStoredBatch batch (statementsOf s transitionId) = .ok rows) :
    StatementsStored sha256 inputs rows s := by
  obtain ⟨hfacts, hmem⟩ := verifyStoredBatch_eq_ok h
  exact ⟨by rw [hfacts]; exact hbatch, fun row hrow => (mem_statementsOf.mp (hmem row hrow)).1⟩

/-- The transaction of a batch stores it as a whole. -/
theorem statementTransaction_eq_ok {now : ℤ} {projectId transitionId : JsString}
    {inputs : List RecordTransitionStatementMembershipInput} {batch : List StatementFacts}
    {pending : List (JsValue × StatementFacts)} {rows : List StatementRow}
    (hbatch : inputs.mapM (statementFacts sha256) = .ok batch)
    (h : statementTransaction sha256 now projectId transitionId batch pending s = .ok (rows, t)) :
    Evolves s t ∧ StatementsStored sha256 inputs rows t := by
  obtain ⟨objects, hobjects, hrest⟩ := bind_eq_ok_iff.mp h
  dsimp only at hrest
  split at hrest
  · cases hrest
  · obtain ⟨memberships, hverified, hresult⟩ := bind_eq_ok_iff.mp hrest
    obtain ⟨rfl, rfl⟩ := Prod.mk.inj (Except.ok.inj hresult)
    exact ⟨(evolves_objects (prefix_of_persistTransitionObjects sha256 hobjects)).trans
      evolves_insertStatements, statementsStored_of_verify hbatch hverified⟩

/-- What is listed of the statements of a transition is stored, and what was stored is listed. -/
theorem promises_listTransitionStatementMemberships {guar : RequestStore → RequestStore → Prop}
    {projectId transitionId : JsString} (hguar : ∀ s, guar s s) (hs : Consistent s) :
    Promises guar (fun result t => Consistent t ∧ Keeps s t ∧ ∀ rows, result = .ok rows →
        (∀ row ∈ rows, row ∈ t.statements ∧ row.facts.transitionId = transitionId) ∧
        ∀ row ∈ s.statements, row.facts.transitionId = transitionId → row ∈ rows)
      (listTransitionStatementMemberships projectId transitionId) s := by
  refine meets_query fun t ht => ⟨hguar t, ?_⟩
  obtain ⟨hconsistent, hkeeps⟩ := ht hs
  split
  · intro u hu
    obtain ⟨hconsistent', hkeeps'⟩ := hu hconsistent
    exact ⟨hconsistent', hkeeps.trans hkeeps', fun _ h => nomatch h⟩
  · intro u hu _ _
    obtain ⟨hconsistent', hkeeps'⟩ := hu hconsistent
    refine ⟨hguar u, fun v hv => ?_⟩
    obtain ⟨hconsistent'', hkeeps''⟩ := hv hconsistent'
    refine ⟨hconsistent'', (hkeeps.trans hkeeps').trans hkeeps'', fun rows hrows => ?_⟩
    obtain rfl := Except.ok.inj hrows
    refine ⟨fun row hrow => ?_, fun row hrow htransition => ?_⟩
    · obtain ⟨hmem, htransition⟩ := mem_statementsOf.mp hrow
      exact ⟨hkeeps''.statements.subset hmem, htransition⟩
    · exact mem_statementsOf.mpr
        ⟨hkeeps'.statements.subset (hkeeps.statements.subset hrow), htransition⟩

/-- A batch of statements returns what is stored of it, and each step of it stores it as a whole
or leaves the statements as they are. -/
theorem promises_recordTransitionStatementMemberships {now : ℤ}
    {inputs : List RecordTransitionStatementMembershipInput} (hs : Consistent s) :
    Promises (fun s t => Evolves s t ∧ StoresWhole sha256 inputs s t)
      (fun result t => ∀ response, result = .ok response →
        StatementsStored sha256 inputs (response.map Prod.fst) t)
      (recordTransitionStatementMemberships sha256 now inputs) s := by
  have hfail : ∀ (e : StorageError) (t : RequestStore) (response : List (StatementRow × Bool)),
      Except.error e = .ok response →
        StatementsStored sha256 inputs (response.map Prod.fst) t := fun _ _ _ h => nomatch h
  have hstay : ∀ s, Evolves s s ∧ StoresWhole sha256 inputs s s :=
    fun s => ⟨.refl s, .inl rfl⟩
  cases inputs with
  | nil =>
    intro t _ response hresponse
    obtain rfl := Except.ok.inj hresponse
    exact ⟨rfl, fun _ h => nomatch h⟩
  | cons first rest =>
    refine meets_lift (fun _ _ => ?_) fun e t _ _ => hfail e t
    refine Meets.bind Evolves.refl
      (readOnly_resolveTransitionProposalGraph.meets Evolves.trans hstay (Evolves.refl s))
      (fun graph t ht => ?_) fun e t _ u _ => hfail e u
    refine meets_lift (fun _ _ => ?_) fun e t _ _ => hfail e t
    refine meets_lift (fun batch hbatch => ?_) fun e t _ _ => hfail e t
    refine meets_lift (fun _ _ => ?_) fun e t _ _ => hfail e t
    refine Meets.bind Evolves.refl
      (promises_listTransitionStatementMemberships hstay (ht hs).1) (fun current u hu => ?_)
      fun e t _ u _ => hfail e u
    obtain ⟨hconsistent, -, hcurrent⟩ := hu
    refine meets_lift (fun reused hreused => ?_) fun e t _ _ => hfail e t
    have hreusedLength : reused.length = batch.length :=
      (mapM_eq_ok_iff.mp hreused).length_eq.symm
    -- Either way the rows returned are those that the verification has found.
    have hreturn : ∀ rows v, StatementsStored sha256 (first :: rest) rows v → Consistent v →
        Promises (fun s t => Evolves s t ∧ StoresWhole sha256 (first :: rest) s t)
          (fun result t => ∀ response, result = .ok response →
            StatementsStored sha256 (first :: rest) (response.map Prod.fst) t)
          (pure (rows.zip (reused.map Option.isSome))) v := by
      intro rows v hrows hv w hw response hresponse
      obtain rfl := Except.ok.inj hresponse
      have hrowsLength : rows.length = batch.length := by
        rw [← Except.ok.inj (hrows.1.symm.trans hbatch), List.length_map]
      rw [List.map_fst_zip (by rw [List.length_map]; omega)]
      exact hrows.keeps (hw hv).2
    dsimp only
    split
    · refine meets_lift (fun rows hrows => ?_) fun e t _ _ => hfail e t
      obtain ⟨hfacts, hmem⟩ := verifyStoredBatch_eq_ok hrows
      exact hreturn rows u ⟨by rw [hfacts]; exact hbatch,
        fun row hrow => ((hcurrent current rfl).1 row (hmem row hrow)).1⟩ hconsistent
    · refine meets_atomically (fun v rows w hv hw => ?_) fun v e _ _ =>
        ⟨hstay v, fun _ _ => hfail e _⟩
      obtain ⟨hevolves, hstored⟩ := statementTransaction_eq_ok hbatch hw
      exact ⟨⟨hevolves, .inr ⟨rows, hstored⟩⟩,
        hreturn rows w hstored (hevolves (hv hconsistent).1).1⟩

/-- What is stored of the result of a command. -/
def ReceiptStored (input : ReceiptFacts) (row : ReceiptRow) (s : RequestStore) : Prop :=
  row ∈ s.receipts ∧ row.facts = input

/-- What is found of a receipt is stored, and what was stored is found. -/
theorem promises_findTransitionCommandReceipt {guar : RequestStore → RequestStore → Prop}
    {input : ReceiptFacts} (hguar : ∀ s, guar s s) (hs : Consistent s) :
    Promises guar (fun result t => Consistent t ∧ Keeps s t ∧ ∀ found, result = .ok found →
        (∀ row, found = some row → row ∈ t.receipts ∧ row.facts.request = input.request) ∧
        ∀ row ∈ s.receipts, row.facts.request = input.request → found = some row)
      (findTransitionCommandReceipt input) s := by
  refine meets_query fun t ht => ⟨hguar t, ?_⟩
  obtain ⟨hconsistent, hkeeps⟩ := ht hs
  split
  · rename_i hnone
    intro u hu
    obtain ⟨hconsistent', hkeeps'⟩ := hu hconsistent
    refine ⟨hconsistent', hkeeps.trans hkeeps', fun found hfound => ?_⟩
    obtain rfl := Except.ok.inj hfound
    refine ⟨(fun _ h => nomatch h), fun row hrow hrequest => ?_⟩
    rw [List.find?_eq_none] at hnone
    exact absurd (decide_eq_true hrequest) (hnone row (hkeeps.receipts.subset hrow))
  · rename_i row hrow
    have hmem := List.mem_of_find?_eq_some hrow
    have hrequest : row.facts.request = input.request := by simpa using List.find?_some hrow
    refine meets_lift (fun receipt hreceipt => ?_) fun e u _ hu => ?_
    · intro u hu
      obtain ⟨hconsistent', hkeeps'⟩ := hu hconsistent
      refine ⟨hconsistent', hkeeps.trans hkeeps', fun found hfound => ?_⟩
      obtain rfl := Except.ok.inj hfound
      have hsame : receipt = row := by
        rw [readReceipt] at hreceipt
        split at hreceipt
        · exact (Except.ok.inj hreceipt).symm
        · cases hreceipt
      subst hsame
      refine ⟨fun other hother => ?_, fun other hother hrequest' => ?_⟩
      · obtain rfl := Option.some.inj hother
        exact ⟨hkeeps'.receipts.subset hmem, hrequest⟩
      · rw [hconsistent.receipts.eq hmem (hkeeps.receipts.subset hother)
          (hrequest.trans hrequest'.symm)]
    · obtain ⟨hconsistent', hkeeps'⟩ := hu hconsistent
      exact ⟨hconsistent', hkeeps.trans hkeeps', fun _ h => nomatch h⟩

/-- A stored receipt that agrees with the input is returned. -/
theorem promises_return_receipt {input : ReceiptFacts} {receipt : ReceiptRow} {reused : Bool}
    (hs : Consistent s) (hmem : receipt ∈ s.receipts) :
    Promises Evolves (fun result t => ∀ response, result = .ok response →
        ReceiptStored input response.1 t)
      (do
        if receipt.facts ≠ input then .fail (commandConflict input.requestId)
        return (receipt, reused)) s := by
  split
  · exact fun _ _ _ h => nomatch h
  · rename_i hsame
    intro t ht response hresponse
    obtain rfl := Except.ok.inj hresponse
    exact ⟨(ht hs).2.receipts.subset hmem, not_not.mp hsame⟩

/-- The record of a result of a command returns what is stored of it. -/
theorem promises_recordTransitionCommandReceipt {now : ℤ} {input : ReceiptFacts}
    (hs : Consistent s) :
    Promises Evolves (fun result t => ∀ response, result = .ok response →
        ReceiptStored input response.1 t)
      (recordTransitionCommandReceipt now input) s := by
  have hfail : ∀ (e : StorageError) (t : RequestStore) (response : ReceiptRow × Bool),
      Except.error e = .ok response → ReceiptStored input response.1 t := fun _ _ _ h => nomatch h
  refine meets_lift (fun _ _ => meets_query fun t ht => ⟨.refl t, ?_⟩) fun e t _ _ => hfail e t
  split
  · exact fun u _ => hfail _ u
  · refine Meets.bind Evolves.refl
      (promises_findTransitionCommandReceipt Evolves.refl (ht hs).1) (fun prior u hu => ?_)
      fun e _ _ u _ => hfail e u
    obtain ⟨hconsistent, -, hprior⟩ := hu
    split
    · rename_i receipt
      exact promises_return_receipt hconsistent ((hprior _ rfl).1 receipt rfl).1
    · refine meets_query fun v hv => ⟨.refl v, ?_⟩
      refine meets_lift (fun _ _ => ?_) fun e t _ _ => hfail e t
      refine meets_atomically (fun w _ x hw hx => ?_) fun w e _ h => nomatch h
      obtain rfl := (Prod.mk.inj (Except.ok.inj hx)).2
      have hstep : Evolves w (insertReceipt ⟨input, now⟩ w) := evolves_insertReceipt
      refine ⟨hstep, Meets.bind Evolves.refl (promises_findTransitionCommandReceipt Evolves.refl
        (hstep (hw (hv hconsistent).1).1).1) (fun stored y hy => ?_) fun e _ _ u _ => hfail e u⟩
      obtain ⟨hconsistent', -, hstored⟩ := hy
      split
      · exact fun z _ => hfail _ z
      · rename_i receipt
        exact promises_return_receipt hconsistent' ((hstored _ rfl).1 receipt rfl).1

/-! ## Calls whose identity is taken -/

/-- A call that fails and writes nothing. -/
def Refuses {α : Type} (p : Prog RequestStore StorageError α) (s : RequestStore) : Prop :=
  Promises (fun s t => t = s) (fun result _ => ∀ response, result ≠ .ok response) p s

/-- The identity of a request for a transition is taken by other facts. -/
def ProposalConflict (sha256 : List UInt8 → JsString)
    (input : CreateTransitionProposalMembershipInput) (s : RequestStore) : Prop :=
  ∃ row ∈ s.proposals, row.request = (input.projectId, input.actor, input.requestId) ∧
    ¬ProposalStored sha256 input row s

/-- A request for a transition whose identity is taken is refused. -/
theorem refuses_createTransitionProposalMembership {transitionId : JsString} {now : ℤ}
    {input : CreateTransitionProposalMembershipInput} (hs : Consistent s)
    (hconflict : ProposalConflict sha256 input s) :
    Refuses (createTransitionProposalMembership sha256 transitionId now input) s := by
  obtain ⟨row, hrow, hrequest, hother⟩ := hconflict
  refine meets_lift (fun _ _ => meets_lift (fun facts hfacts => ?_) fun e t _ _ => nofun)
    fun e t _ _ => nofun
  refine meets_query fun t ht => ⟨rfl, ?_⟩
  obtain ⟨hconsistent, hkeeps⟩ := ht hs
  have hthere := hkeeps.proposals.subset hrow
  have hfind : findTransitionProposalByRequest t input.projectId input.actor input.requestId =
      some row := by
    rw [findTransitionProposalByRequest, ← hrequest]
    exact hconsistent.requests.find?_eq hthere
  rw [hfind]
  refine meets_query fun u hu => ⟨rfl, ?_⟩
  split
  · exact fun v _ => nofun
  · rename_i hsame
    rw [not_or, not_not, Bool.not_eq_false] at hsame
    have hpreparation := (hkeeps.trans (hu hconsistent).2).preparation row hrow
    rw [hpreparation] at hsame
    exact absurd ⟨hrow, hfacts.trans (congrArg _ hsame.1.symm), hsame.2⟩ hother

/-- The identity of a statement, or of the request for it, is taken by other facts. -/
def StatementConflict (sha256 : List UInt8 → JsString)
    (inputs : List RecordTransitionStatementMembershipInput) (s : RequestStore) : Prop :=
  ∃ input ∈ inputs, ∃ row ∈ s.statements, statementFacts sha256 input ≠ .ok row.facts ∧
    (row.facts.request = (input.transitionId, input.source, input.issuer, input.requestId) ∨
      ∃ facts, statementFacts sha256 input = .ok facts ∧ row.facts.statement = facts.statement)

/-- What a membership says repeats the input. -/
theorem statementFacts_eq_ok {input : RecordTransitionStatementMembershipInput}
    {facts : StatementFacts} (h : statementFacts sha256 input = .ok facts) :
    facts.request = (input.transitionId, input.source, input.issuer, input.requestId) ∧
      facts.transitionId = input.transitionId := by
  obtain ⟨_, _, hfacts⟩ := bind_eq_ok_iff.mp h
  rw [← Except.ok.inj hfacts]
  exact ⟨rfl, rfl⟩

/-- Among the statements of one transition, one that has the identity of other facts refuses
them. -/
theorem reusedStatement_ne_ok {current : List StatementRow} {facts : StatementFacts}
    {row : StatementRow} (hs : Consistent s)
    (hcurrent : ∀ row ∈ current,
      row ∈ s.statements ∧ row.facts.transitionId = facts.transitionId)
    (hrow : row ∈ current) (hother : row.facts ≠ facts)
    (hidentity : row.facts.request = facts.request ∨ row.facts.statement = facts.statement)
    (result : Option StatementRow) : reusedStatement current facts ≠ .ok result := by
  -- What is found under the identity is the row itself, by the unique indexes.
  have hfound : ∀ found : Option StatementRow, found.isSome = true →
      (∀ other, found = some other → other = row) →
      (found.any fun other => other.facts ≠ facts) = true := by
    intro found hsome honly
    obtain ⟨other, rfl⟩ := Option.isSome_iff_exists.mp hsome
    rw [honly other rfl]
    simpa using hother
  intro h
  rw [reusedStatement] at h
  split at h
  · cases h
  · rename_i hnone
    refine hnone ?_
    rw [Bool.or_eq_true]
    rcases hidentity with hrequest | hstatement
    · refine .inr (hfound _ ?_ fun other hfind => ?_)
      · rw [List.find?_isSome]
        refine ⟨row, hrow, ?_⟩
        simp only [StatementFacts.request, Prod.mk.injEq] at hrequest
        simp [hrequest.2.1, hrequest.2.2.1, hrequest.2.2.2]
      · have hmem := List.mem_of_find?_eq_some hfind
        have hsame := List.find?_some hfind
        simp only [Bool.and_eq_true, decide_eq_true_eq] at hsame
        refine hs.statementRequests.eq (hcurrent other hmem).1 (hcurrent row hrow).1 ?_
        rw [hrequest, StatementFacts.request, StatementFacts.request, (hcurrent other hmem).2,
          hsame.1.1, hsame.1.2, hsame.2]
    · refine .inl (hfound _ ?_ fun other hfind => ?_)
      · rw [List.find?_isSome]
        exact ⟨row, hrow, decide_eq_true (congrArg Prod.snd hstatement)⟩
      · have hmem := List.mem_of_find?_eq_some hfind
        have hsame : other.facts.statementDigest = facts.statementDigest := by
          simpa using List.find?_some hfind
        refine hs.statements.eq (hcurrent other hmem).1 (hcurrent row hrow).1 ?_
        rw [hstatement, StatementFacts.statement, StatementFacts.statement,
          (hcurrent other hmem).2, hsame]

/-- A batch with a statement whose identity is taken is refused. -/
theorem refuses_recordTransitionStatementMemberships {now : ℤ}
    {inputs : List RecordTransitionStatementMembershipInput} (hs : Consistent s)
    (hconflict : StatementConflict sha256 inputs s) :
    Refuses (recordTransitionStatementMemberships sha256 now inputs) s := by
  obtain ⟨input, hinput, row, hrow, hother, hidentity⟩ := hconflict
  cases inputs with
  | nil => cases hinput
  | cons first rest =>
    refine meets_lift (fun _ hscope => ?_) fun e t _ _ => nofun
    refine Meets.bind Evolves.refl
      (readOnly_resolveTransitionProposalGraph.meets Evolves.trans (fun _ => rfl) (Evolves.refl s))
      (fun graph t ht => ?_) fun e t _ u _ => nofun
    obtain ⟨hconsistent, hkeeps⟩ := ht hs
    refine meets_lift (fun _ _ => ?_) fun e t _ _ => nofun
    refine meets_lift (fun batch hbatch => ?_) fun e t _ _ => nofun
    refine meets_lift (fun _ _ => ?_) fun e t _ _ => nofun
    refine Meets.bind Evolves.refl
      (promises_listTransitionStatementMemberships (fun _ => rfl) hconsistent)
      (fun current u hu => ?_) fun e t _ u _ => nofun
    obtain ⟨hconsistent', -, hcurrent⟩ := hu
    obtain ⟨hstored, hlisted⟩ := hcurrent current rfl
    have htransition : input.transitionId = first.transitionId := by
      rw [requireType] at hscope
      split at hscope
      · rename_i hall
        have hsame := List.all_eq_true.mp hall input hinput
        rw [Bool.and_eq_true, decide_eq_true_eq, decide_eq_true_eq] at hsame
        exact hsame.2
      · cases hscope
    obtain ⟨facts, hmem, hfacts⟩ : ∃ facts ∈ batch, statementFacts sha256 input = .ok facts :=
      exists_of_mapM_eq_ok hbatch hinput
    obtain ⟨hrequest, hfactsTransition⟩ := statementFacts_eq_ok hfacts
    have hsame : row.facts.request = facts.request ∨ row.facts.statement = facts.statement := by
      rcases hidentity with h | ⟨facts', hfacts', h⟩
      · exact .inl (h.trans hrequest.symm)
      · rw [← Except.ok.inj (hfacts'.symm.trans hfacts)]
        exact .inr h
    have hrowTransition : row.facts.transitionId = facts.transitionId := by
      rcases hsame with h | h
      · exact congrArg Prod.fst h
      · exact congrArg Prod.fst h
    have hfirst : facts.transitionId = first.transitionId := hfactsTransition.trans htransition
    refine meets_lift (fun reused hreused => ?_) fun e t _ _ => nofun
    obtain ⟨result, _, hresult⟩ := exists_of_mapM_eq_ok hreused hmem
    refine absurd hresult (reusedStatement_ne_ok hconsistent' (fun other hmem' => ?_)
      (hlisted row (hkeeps.statements.subset hrow) (hrowTransition.trans hfirst))
      (fun h => hother (h ▸ hfacts)) hsame result)
    exact ⟨(hstored other hmem').1, (hstored other hmem').2.trans hfirst.symm⟩

/-- The identity of a command is taken by other facts. -/
def ReceiptConflict (input : ReceiptFacts) (s : RequestStore) : Prop :=
  ∃ row ∈ s.receipts, row.facts.request = input.request ∧ row.facts ≠ input

/-- The record of a result of a command whose identity is taken is refused. -/
theorem refuses_recordTransitionCommandReceipt {now : ℤ} {input : ReceiptFacts}
    (hs : Consistent s) (hconflict : ReceiptConflict input s) :
    Refuses (recordTransitionCommandReceipt now input) s := by
  obtain ⟨row, hrow, hrequest, hother⟩ := hconflict
  refine meets_lift (fun _ _ => meets_query fun t ht => ⟨rfl, ?_⟩) fun e t _ _ => nofun
  obtain ⟨hconsistent, hkeeps⟩ := ht hs
  split
  · exact fun u _ => nofun
  · refine Meets.bind Evolves.refl
      (promises_findTransitionCommandReceipt (fun _ => rfl) hconsistent) (fun prior u hu => ?_)
      fun e _ _ u _ => nofun
    obtain ⟨-, -, hprior⟩ := hu
    rw [(hprior prior rfl).2 row (hkeeps.receipts.subset hrow) hrequest]
    dsimp only
    rw [if_pos hother]
    exact fun v _ => nofun

/-! ## Runs -/

/-- A call, with the names and the time that new rows would have. -/
inductive TransitionRequest where
  | proposal (transitionId : JsString) (now : ℤ) (input : CreateTransitionProposalMembershipInput)
  | statements (now : ℤ) (inputs : List RecordTransitionStatementMembershipInput)
  | receipt (now : ℤ) (input : ReceiptFacts)

/-- What a call returns. -/
inductive TransitionResponse where
  | proposal (membership : ProposalRow) (reused : Bool)
  | statements (memberships : List (StatementRow × Bool))
  | receipt (receipt : ReceiptRow) (reused : Bool)

namespace TransitionRequest

/-- The program of a call. -/
def program (sha256 : List UInt8 → JsString) :
    TransitionRequest → Prog RequestStore StorageError TransitionResponse
  | proposal transitionId now input =>
    (createTransitionProposalMembership sha256 transitionId now input).mapResult
      fun response => .proposal response.1 response.2
  | statements now inputs =>
    (recordTransitionStatementMemberships sha256 now inputs).mapResult .statements
  | receipt now input =>
    (recordTransitionCommandReceipt now input).mapResult
      fun response => .receipt response.1 response.2

/-- What is returned is stored, and says what the call asked for. -/
def Stored (sha256 : List UInt8 → JsString) (request : TransitionRequest)
    (response : TransitionResponse) (s : RequestStore) : Prop :=
  match request, response with
  | proposal _ _ input, .proposal row _ => ProposalStored sha256 input row s
  | statements _ inputs, .statements rows => StatementsStored sha256 inputs (rows.map Prod.fst) s
  | receipt _ input, .receipt row _ => ReceiptStored input row s
  | _, _ => False

/-- The identity of the call is taken by other facts. -/
def Conflicts (sha256 : List UInt8 → JsString) (request : TransitionRequest) (s : RequestStore) :
    Prop :=
  match request with
  | proposal _ _ input => ProposalConflict sha256 input s
  | statements _ inputs => StatementConflict sha256 inputs s
  | receipt _ input => ReceiptConflict input s

/-- A step of a batch of statements stores all of it or none of it. -/
def Whole (sha256 : List UInt8 → JsString) (request : TransitionRequest) (s t : RequestStore) :
    Prop :=
  match request with
  | statements _ inputs => StoresWhole sha256 inputs s t
  | _ => True

/-- A call returns what is stored, and stores a batch as a whole. -/
theorem promises {request : TransitionRequest} (hs : Consistent s) :
    Promises (fun s t => Evolves s t ∧ request.Whole sha256 s t)
      (fun result t => ∀ response, result = .ok response → request.Stored sha256 response t)
      (request.program sha256) s := by
  cases request with
  | proposal transitionId now input =>
    refine ((promises_createTransitionProposalMembership hs).mono
      (fun _ _ h => ⟨h, trivial⟩) ?_).mapResult
    rintro (e | row) t h response hresponse
    · cases hresponse
    · cases hresponse
      exact h row rfl
  | statements now inputs =>
    refine ((promises_recordTransitionStatementMemberships hs).mono (fun _ _ h => h) ?_).mapResult
    rintro (e | rows) t h response hresponse
    · cases hresponse
    · cases hresponse
      exact h rows rfl
  | receipt now input =>
    refine ((promises_recordTransitionCommandReceipt hs).mono
      (fun _ _ h => ⟨h, trivial⟩) ?_).mapResult
    rintro (e | row) t h response hresponse
    · cases hresponse
    · cases hresponse
      exact h row rfl

/-- A refused call is refused whatever the form of its result. -/
theorem refuses_mapResult {α β : Type} {f : α → β} {p : Prog RequestStore StorageError α}
    (h : Refuses p s) : Refuses (p.mapResult f) s := by
  refine (h.mono (fun _ _ h => h) ?_).mapResult
  rintro (e | row) t h response hresponse
  · cases hresponse
  · exact h row rfl

/-- A call whose identity is taken is refused. -/
theorem refuses {request : TransitionRequest} (hs : Consistent s)
    (hconflict : request.Conflicts sha256 s) : Refuses (request.program sha256) s := by
  cases request with
  | proposal transitionId now input =>
    exact refuses_mapResult (refuses_createTransitionProposalMembership hs hconflict)
  | statements now inputs =>
    exact refuses_mapResult (refuses_recordTransitionStatementMemberships hs hconflict)
  | receipt now input =>
    exact refuses_mapResult (refuses_recordTransitionCommandReceipt hs hconflict)

end TransitionRequest

variable {ι : Type} [DecidableEq ι]

/-- The calls, none of which has begun. -/
def started (sha256 : List UInt8 → JsString) (requests : ι → TransitionRequest)
    (store : RequestStore) : World RequestStore StorageError TransitionResponse ι :=
  ⟨store, fun i => (requests i).program sha256⟩

/-- The world after a run: its store is consistent, and every call keeps its promise. -/
structure Ordered (sha256 : List UInt8 → JsString) (requests : ι → TransitionRequest)
    (w : World RequestStore StorageError TransitionResponse ι) : Prop where
  /-- The unique indexes hold. -/
  consistent : Consistent w.state
  /-- What the calls still have to do keeps their promises. -/
  promises : ∀ i, Promises (fun s t => Evolves s t ∧ (requests i).Whole sha256 s t)
    (fun result t => ∀ response, result = .ok response → (requests i).Stored sha256 response t)
    (w.calls i) w.state

/-- Runs lead from ordered worlds to ordered worlds that keep what is stored. -/
theorem Ordered.reaches {requests : ι → TransitionRequest}
    {w v : World RequestStore StorageError TransitionResponse ι} (h : Ordered sha256 requests w)
    (hrun : Reaches (fun _ _ => True) w v) :
    Ordered sha256 requests v ∧ Keeps w.state v.state := by
  obtain ⟨hmoves, hpromises⟩ := hrun.meets (fun _ => Evolves)
    (fun i s t => Evolves s t ∧ (requests i).Whole sha256 s t)
    (fun i result t => ∀ response, result = .ok response → (requests i).Stored sha256 response t)
    Evolves (fun _ => Evolves.refl) Evolves.trans (fun _ h => h.1) (fun h => h.1) Evolves.refl
    Evolves.trans h.promises
  obtain ⟨hconsistent, hkeeps⟩ := hmoves h.consistent
  exact ⟨⟨hconsistent, hpromises⟩, hkeeps⟩

/-- A call whose identity is taken before it begins never succeeds and never writes. -/
theorem Ordered.refused {requests : ι → TransitionRequest}
    {w v : World RequestStore StorageError TransitionResponse ι} (h : Ordered sha256 requests w)
    {i : ι} (hcall : w.calls i = (requests i).program sha256)
    (hconflict : (requests i).Conflicts sha256 w.state)
    (hrun : Reaches (fun _ _ => True) w v) :
    (∀ response, v.calls i ≠ .done (.ok response)) ∧ ∀ u, Step v i u → u.state = v.state := by
  -- The call itself leaves the store as it is; the others still evolve it.
  let guar := fun j s t => if j = i then t = s else Evolves s t
  have hguar : ∀ {j s t}, guar j s t → Evolves s t := by
    intro j s t hstep
    simp only [guar] at hstep
    split at hstep
    · rw [hstep]
      exact .refl s
    · exact hstep
  obtain ⟨-, hmeets⟩ := hrun.meets (fun _ => Evolves) guar
    (fun j result _ => j = i → ∀ response, result ≠ .ok response) Evolves (fun _ => Evolves.refl)
    Evolves.trans (fun _ => hguar) hguar Evolves.refl Evolves.trans (fun j => by
      by_cases hji : j = i
      · subst hji
        rw [hcall]
        exact (TransitionRequest.refuses h.consistent hconflict).mono
          (fun s t hst => by simpa only [guar, if_true] using hst) fun _ _ hpost _ => hpost
      · exact (h.promises j).mono
          (fun s t hst => by simpa only [guar, hji, if_false] using hst.1)
          fun _ _ _ heq => absurd heq hji)
  refine ⟨fun response hdone => ?_, fun u hstep => ?_⟩
  · have hpost := hmeets i
    rw [hdone] at hpost
    exact hpost.result Evolves.refl rfl response rfl
  · obtain ⟨hact⟩ := hstep
    have hst := ((hmeets i).step Evolves.refl hact trivial).1
    simpa only [guar, if_true] using hst

/-- In every run of calls from a consistent store: the identity of a request names one row at
most, and no row or preparation ever changes; what a call returns is stored and is what it asked
for; a call whose identity is taken by other facts fails and writes nothing; and a batch of
statements is stored as a whole or not at all. -/
theorem requests_exactlyOnce {store : RequestStore} (hstore : Consistent store)
    {requests : ι → TransitionRequest}
    {w : World RequestStore StorageError TransitionResponse ι}
    (hrun : Reaches (fun _ _ => True) (started sha256 requests store) w) :
    (∀ v, Reaches (fun _ _ => True) w v → Consistent v.state ∧ Keeps w.state v.state) ∧
    (∀ i response, w.calls i = .done (.ok response) →
      (requests i).Stored sha256 response w.state) ∧
    (∀ i v, Step w i v → (requests i).Whole sha256 w.state v.state) ∧
    ∀ i, w.calls i = (requests i).program sha256 → (requests i).Conflicts sha256 w.state →
      ∀ v, Reaches (fun _ _ => True) w v →
        (∀ response, v.calls i ≠ .done (.ok response)) ∧
          ∀ u, Step v i u → u.state = v.state := by
  have hstart : Ordered sha256 requests (started sha256 requests store) :=
    ⟨hstore, fun _ => TransitionRequest.promises hstore⟩
  have hw := (hstart.reaches hrun).1
  refine ⟨fun v hv => ?_, fun i response hdone => ?_, fun i v hstep => ?_,
    fun i hcall hconflict v hv => hw.refused hcall hconflict hv⟩
  · obtain ⟨hordered, hkeeps⟩ := hw.reaches hv
    exact ⟨hordered.consistent, hkeeps⟩
  · have hpromise := hw.promises i
    rw [hdone] at hpromise
    exact hpromise.result Evolves.refl response rfl
  · obtain ⟨hact⟩ := hstep
    exact ((hw.promises i).step Evolves.refl hact trivial).1.2

/-- A digest. -/
def zeroDigest : JsString := js "sha256:" ++ List.replicate 64 (unit '0')

/-- The actor of the example. -/
def someone : ActorRef := ⟨js "human", js "a"⟩

/-- The result of a decision. -/
def decided (resultDigest : JsString) : ReceiptFacts :=
  { transitionId := js "t"
    projectId := js "p"
    action := .decide
    actor := someone
    requestId := js "r"
    requestDigest := zeroDigest
    resultKind := .decision
    resultDigest := resultDigest }

/-- A transition with one decision. -/
def decidedStore : RequestStore :=
  { objects := []
    proposals := [⟨js "t", ⟨js "p", js "w", 1, js "main", none, zeroDigest, zeroDigest,
      .structuredYops, [], zeroDigest, someone, js "q"⟩, 0⟩]
    preparations := []
    statements := []
    receipts := [⟨decided zeroDigest, 0⟩] }

/-- The decision is recorded again, once with the same result and once with another. -/
def recordings (same : Bool) : TransitionRequest :=
  .receipt 1 (decided (if same then zeroDigest else zeroDigest.dropLast ++ js "1"))

/-- The call with the same result returns what is stored, and the other fails. -/
theorem requests_exactlyOnce_recordings :
    ∃ w : World RequestStore StorageError TransitionResponse Bool,
      w.calls true = .done (.ok (.receipt ⟨decided zeroDigest, 0⟩ true)) ∧
      (recordings true).Stored (fun _ => []) (.receipt ⟨decided zeroDigest, 0⟩ true) w.state ∧
      ∀ response, w.calls false ≠ .done (.ok response) := by
  have hstore : Consistent decidedStore := by
    refine ⟨?_, ?_, ?_, ?_, ?_, ?_⟩ <;> decide
  have hsame : Alone (fun _ _ => True) ((recordings true).program fun _ => []) decidedStore
      (.done (.ok (.receipt ⟨decided zeroDigest, 0⟩ true))) decidedStore := by
    have hinput : assertReceiptInput (decided zeroDigest) = .ok () := by decide
    change Alone _ (Prog.mapResult _ (recordTransitionCommandReceipt 1 (decided zeroDigest))) _ _ _
    rw [recordTransitionCommandReceipt, hinput]
    exact .act rfl trivial (.act rfl trivial .refl)
  have hrun : Reaches (fun _ _ => True) (started (fun _ => []) recordings decidedStore) _ :=
    hsame.reaches true rfl rfl
  obtain ⟨-, hstored, -, hrefused⟩ := requests_exactlyOnce hstore hrun
  have hconflict : (recordings false).Conflicts (fun _ => []) decidedStore :=
    ⟨⟨decided zeroDigest, 0⟩, by decide, by decide, by decide⟩
  exact ⟨_, rfl, hstored true _ rfl, (hrefused false rfl hconflict _ .refl).1⟩

end T3x.Storage
