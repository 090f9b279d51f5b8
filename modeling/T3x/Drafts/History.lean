import T3x.Drafts.Ledger

/-!
# The history of a draft

Every call either leaves the ledger as it is, or notes a receipt, or appends one
action at the current revision. So the actions are numbered by the revisions,
every revision can be replayed, and what a later call adds changes no earlier
revision. A request that was answered once is answered again in the same way.
-/

namespace T3x.Drafts

open Js T3x.Run T3x.Yops

section

variable {issueMessage : JsValue → JsString} {doc next before after : JsValue}
  {ops : List JsValue} {ledger : DraftActionLedger} {input : PublishDraftActionInput}

/-! ## Replaying -/

/-- Operations are applied to a draft exactly where their run leads. -/
theorem applyDraftYOps_eq_ok_iff :
    applyDraftYOps issueMessage doc ops = .ok next ↔
      run (applyStep issueMessage) doc ops = some next := by
  have hclone : ops.map deepClone = ops := by
    rw [List.map_congr_left fun op _ => deepClone_eq op, List.map_id']
  unfold applyDraftYOps
  rw [hclone]
  constructor
  · intro h
    simp only at h
    split_ifs at h with hok
    rw [run_of_applyYOps hok, Except.ok.inj h]
  · intro h
    obtain ⟨more, hmore⟩ := applyYOps_of_run h
    simp only [hmore, if_true]

/-- The lineage follows every run of operations. -/
theorem exists_nextLineageFrom (revision index : ℕ) (lineage : List DraftNodeLineage)
    (h : run (applyStep issueMessage) doc ops = some next) :
    ∃ lineage', nextLineageFrom issueMessage revision index ops doc lineage = .ok lineage' := by
  induction ops generalizing doc index lineage with
  | nil => exact ⟨lineage, rfl⟩
  | cons op ops ih =>
    rw [run_cons] at h
    obtain ⟨reached, hreached, hrest⟩ := Option.bind_eq_some_iff.mp h
    have hone : applyDraftYOps issueMessage doc [op] = .ok reached := by
      rw [applyDraftYOps_eq_ok_iff, run_cons, hreached]
      rfl
    exact exists_bind hone (ih (index + 1) _ hrest)

/-- The actions are numbered one after the other, from a revision on. -/
def Numbered (start : ℕ) (actions : List DraftActionRecord) : Prop :=
  ∀ i action, actions[i]? = some action → action.sequence = start + i + 1 ∧
    action.beforeRevision = start + i ∧ action.afterRevision = start + i + 1

/-- The actions after the first are numbered from the next revision on. -/
theorem Numbered.tail {start : ℕ} {action : DraftActionRecord} {actions : List DraftActionRecord}
    (h : Numbered start (action :: actions)) :
    action.afterRevision = start + 1 ∧ Numbered (start + 1) actions := by
  refine ⟨(h 0 action rfl).2.2, fun i next hnext => ?_⟩
  have hshift := h (i + 1) next hnext
  omega

/-- The operations of the first actions, in a row. -/
def operationsUpTo (revision : ℕ) (actions : List DraftActionRecord) : List JsValue :=
  (actions.take revision).flatMap DraftActionRecord.operations

/-- Replaying numbered actions runs their operations up to the revision. -/
theorem replayActions_eq_ok_iff {start : ℕ} {actions : List DraftActionRecord}
    (h : Numbered start actions) (revision : ℕ) :
    replayActions issueMessage (start + revision) doc actions = .ok next ↔
      run (applyStep issueMessage) doc (operationsUpTo revision actions) = some next := by
  induction actions generalizing start revision doc with
  | nil =>
    rw [operationsUpTo, List.take_nil]
    exact ⟨fun h => congrArg some (Except.ok.inj h), fun h => congrArg _ (Option.some.inj h)⟩
  | cons action actions ih =>
    obtain ⟨hafter, htail⟩ := h.tail
    unfold replayActions
    cases revision with
    | zero =>
      rw [if_pos (by omega), operationsUpTo, List.take_zero]
      exact ⟨fun h => congrArg some (Except.ok.inj h), fun h => congrArg _ (Option.some.inj h)⟩
    | succ revision =>
      rw [if_neg (by omega), operationsUpTo, List.take_succ_cons, List.flatMap_cons, run_append]
      have hshift : start + (revision + 1) = start + 1 + revision := by omega
      rw [hshift]
      cases happly : applyDraftYOps issueMessage doc action.operations with
      | ok reached =>
        rw [applyDraftYOps_eq_ok_iff.mp happly]
        exact ih htail revision
      | error message =>
        cases hrun : run (applyStep issueMessage) doc action.operations with
        | none => simp
        | some reached =>
          rw [applyDraftYOps_eq_ok_iff.mpr hrun] at happly
          cases happly

/-! ## What a call can do -/

/-- No action and no receipt of the ledger has the name. -/
def IsNew (ledger : DraftActionLedger) (actionId : JsString) : Prop :=
  (∀ action ∈ ledger.actions, action.actionId ≠ actionId) ∧
    ∀ receipt ∈ ledger.receiptList, receipt.actionId ≠ actionId

/-- The ledger has an action or a receipt for the request. -/
def Answered (ledger : DraftActionLedger) (input : PublishDraftActionInput) : Prop :=
  (∃ action ∈ ledger.actions, action.actionId = input.actionId ∧
      action.requestDigest = requestDigest input) ∨
    ∃ receipt ∈ ledger.receiptList, receipt.actionId = input.actionId ∧
      receipt.requestDigest = requestDigest input

/-- The answer says that the ledger has what was asked for. -/
def Answer.isDone : Answer → Bool
  | .published _ => true
  | .reused _ => true
  | .noChange _ => true
  | _ => false

/-- A new request for the current revision whose operations lead from the current document
to another one, with the lineage that they give. -/
structure Applies (issueMessage : JsValue → JsString) (ledger : DraftActionLedger)
    (input : PublishDraftActionInput) (before after : JsValue)
    (lineage : List DraftNodeLineage) : Prop where
  /-- The request was not seen before. -/
  isNew : IsNew ledger input.actionId
  /-- It is for the current revision. -/
  target : ∀ target, input.targetRevision = some target →
    isRevision target ledger.compositionRevision = true
  /-- It expects the current revision. -/
  expected : isRevision input.expectedRevision ledger.compositionRevision = true
  /-- No operation has a source. -/
  sources : ∀ op ∈ input.operations, hasOwnSource op = .ok false
  /-- The current document. -/
  current : currentComposition issueMessage ledger = .ok before
  /-- What the operations make of it. -/
  applied : applyDraftYOps issueMessage before input.operations = .ok after
  /-- The lineage after them. -/
  lineage : nextLineage issueMessage ledger.lineage input.operations before
    (ledger.compositionRevision + 1) = .ok lineage

/-- Neither the document nor the nodes have changed. -/
def Unchanged (ledger : DraftActionLedger) (before after : JsValue)
    (lineage : List DraftNodeLineage) : Prop :=
  yValuesEqual before after = true ∧
    canonicalJson (identities ledger.lineage) = canonicalJson (identities lineage)

/-- The ledger with one more receipt. -/
def withReceipt (ledger : DraftActionLedger) (input : PublishDraftActionInput) :
    DraftActionLedger :=
  { ledger with receipts := some (ledger.receiptList ++ [noChangeReceipt ledger input]) }

/-- The ledger with one more action. -/
def withAction (ledger : DraftActionLedger) (input : PublishDraftActionInput)
    (lineage : List DraftNodeLineage) : DraftActionLedger :=
  { ledger with
    compositionRevision := ledger.compositionRevision + 1
    actions := ledger.actions ++ [actionRecord ledger input]
    lineage := lineage }

/-- What a call gives: the ledger as it was, or with a receipt, or with an action. -/
inductive Publishes (issueMessage : JsValue → JsString) (ledger : DraftActionLedger)
    (input : PublishDraftActionInput) : PublishDraftActionResult → Prop
  | kept (answer : Answer) (h : answer.isDone = true → Answered ledger input)
      (hpublished : ∀ action, answer ≠ .published action) :
      Publishes issueMessage ledger input ⟨answer, ledger⟩
  | noted {before after : JsValue} {lineage : List DraftNodeLineage}
      (h : Applies issueMessage ledger input before after lineage)
      (hunchanged : Unchanged ledger before after lineage) :
      Publishes issueMessage ledger input
        ⟨.noChange (noChangeReceipt ledger input), withReceipt ledger input⟩
  | published {before after : JsValue} {lineage : List DraftNodeLineage}
      (h : Applies issueMessage ledger input before after lineage)
      (hchanged : ¬ Unchanged ledger before after lineage) :
      Publishes issueMessage ledger input
        ⟨.published (actionRecord ledger input), withAction ledger input lineage⟩

/-- An action that is found by its name is an action with the name. -/
theorem actionById_spec {actionId : JsString} {action : DraftActionRecord}
    (h : actionById ledger actionId = some action) :
    action ∈ ledger.actions ∧ action.actionId = actionId :=
  ⟨List.mem_of_find?_eq_some h, by simpa using List.find?_some h⟩

/-- A receipt that is found by its name is a receipt with the name. -/
theorem receiptById_spec {actionId : JsString} {receipt : DraftActionReceipt}
    (h : receiptById ledger actionId = some receipt) :
    receipt ∈ ledger.receiptList ∧ receipt.actionId = actionId :=
  ⟨List.mem_of_find?_eq_some h, by simpa using List.find?_some h⟩

/-- A name under which nothing is found is new. -/
theorem isNew_iff {actionId : JsString} :
    IsNew ledger actionId ↔
      actionById ledger actionId = none ∧ receiptById ledger actionId = none := by
  simp only [IsNew, actionById, receiptById, List.find?_eq_none, decide_eq_true_eq]

/-- A search that finds nothing has looked at every item. -/
theorem forall_of_anyM {T E : Type} {items : List T} {p : T → Except E Bool}
    (h : items.anyM p = .ok false) : ∀ item ∈ items, p item = .ok false := by
  induction items with
  | nil => exact fun _ hmem => absurd hmem List.not_mem_nil
  | cons item items ih =>
    rw [List.anyM] at h
    obtain ⟨found, hfound, hrest⟩ := bind_eq_ok_iff.mp h
    cases found with
    | true => cases hrest
    | false => exact List.forall_mem_cons.mpr ⟨hfound, ih hrest⟩

/-- The cases of a call. -/
theorem publishes_of_publishDraftAction {result : PublishDraftActionResult}
    (h : publishDraftAction issueMessage ledger input = .ok result) :
    Publishes issueMessage ledger input result := by
  unfold publishDraftAction at h
  split at h
  · next existing hexisting =>
    obtain ⟨hmem, hid⟩ := actionById_spec hexisting
    split_ifs at h with hdigest
    · obtain rfl := Except.ok.inj h
      exact .kept _ (fun _ => Or.inl ⟨existing, hmem, hid, hdigest⟩) (by simp)
    · obtain rfl := Except.ok.inj h
      exact .kept _ (by simp [Answer.isDone]) (by simp)
  · next receipt _ hreceipt =>
    obtain ⟨hmem, hid⟩ := receiptById_spec hreceipt
    split_ifs at h with hdigest
    · obtain rfl := Except.ok.inj h
      exact .kept _ (fun _ => Or.inr ⟨receipt, hmem, hid, hdigest⟩) (by simp)
    · obtain rfl := Except.ok.inj h
      exact .kept _ (by simp [Answer.isDone]) (by simp)
  · next haction hreceipt =>
    split at h
    · obtain rfl := Except.ok.inj h
      exact .kept _ (by simp [Answer.isDone]) (by simp)
    · next htarget =>
      split_ifs at h with hexpected
      · obtain rfl := Except.ok.inj h
        exact .kept _ (by simp [Answer.isDone]) (by simp)
      · unfold publishNew at h
        obtain ⟨found, hfound, h⟩ := bind_eq_ok_iff.mp h
        cases found with
        | true =>
          obtain rfl := Except.ok.inj h
          exact .kept _ (by simp [Answer.isDone]) (by simp)
        | false =>
          obtain ⟨before, hbefore, h⟩ := bind_eq_ok_iff.mp h
          split at h
          · obtain rfl := Except.ok.inj h
            exact .kept _ (by simp [Answer.isDone]) (by simp)
          · next after happlied =>
            obtain ⟨lineage, hlineage, h⟩ := bind_eq_ok_iff.mp h
            have happlies : Applies issueMessage ledger input before after lineage :=
              { isNew := isNew_iff.mpr ⟨haction, hreceipt⟩
                target := by
                  intro target heq
                  simpa [heq] using htarget
                expected := Bool.eq_true_of_not_eq_false hexpected
                sources := forall_of_anyM hfound
                current := hbefore
                applied := happlied
                lineage := hlineage }
            split_ifs at h with hunchanged
            · obtain rfl := Except.ok.inj h
              exact .noted happlies hunchanged
            · obtain rfl := Except.ok.inj h
              exact .published happlies hunchanged

/-! ## Ledgers that are logs -/

/-- The names of the actions, then those of the receipts. -/
def ids (ledger : DraftActionLedger) : List JsString :=
  ledger.actions.map DraftActionRecord.actionId ++
    ledger.receiptList.map DraftActionReceipt.actionId

/-- A ledger on a base: its actions are numbered by the revisions, no name occurs twice, and
the operations of all actions can be run. -/
structure IsLog (issueMessage : JsValue → JsString) (base : JsValue)
    (ledger : DraftActionLedger) : Prop where
  /-- It begins with the base. -/
  origin : ledger.base = base
  /-- It has one action for each revision. -/
  revision : ledger.compositionRevision = ledger.actions.length
  /-- The actions are numbered by the revisions. -/
  numbered : Numbered 0 ledger.actions
  /-- No name occurs twice. -/
  distinct : (ids ledger).Nodup
  /-- The operations can be run. -/
  runs : ∃ doc, run (applyStep issueMessage) base
    (operationsUpTo ledger.compositionRevision ledger.actions) = some doc

/-- The operations up to a revision begin the operations up to a later one. -/
theorem operationsUpTo_append {r k : ℕ} (h : r ≤ k) (actions : List DraftActionRecord) :
    ∃ more, operationsUpTo k actions = operationsUpTo r actions ++ more := by
  obtain ⟨rest, hrest⟩ := List.take_prefix_take_left (l := actions) h
  exact ⟨rest.flatMap DraftActionRecord.operations, by
    rw [operationsUpTo, operationsUpTo, ← hrest, List.flatMap_append]⟩

/-- Every revision of a log can be replayed. -/
theorem IsLog.replays {base : JsValue} (h : IsLog issueMessage base ledger) {r : ℕ}
    (hr : r ≤ ledger.compositionRevision) :
    ∃ doc, replayToRevision issueMessage ledger r = .ok doc ∧
      run (applyStep issueMessage) base (operationsUpTo r ledger.actions) = some doc := by
  obtain ⟨last, hlast⟩ := h.runs
  obtain ⟨more, hmore⟩ := operationsUpTo_append hr ledger.actions
  rw [hmore, run_append] at hlast
  obtain ⟨doc, hdoc, -⟩ := Option.bind_eq_some_iff.mp hlast
  refine ⟨doc, ?_, hdoc⟩
  rw [replayToRevision, if_neg (by omega), h.origin]
  have hreplay := (replayActions_eq_ok_iff h.numbered r).mpr hdoc
  rwa [Nat.zero_add] at hreplay

/-- A new ledger is a log. -/
theorem isLog_createDraftActionLedger (base : JsValue) :
    IsLog issueMessage base (createDraftActionLedger base) where
  origin := rfl
  revision := rfl
  numbered _ _ h := by cases h
  distinct := List.nodup_nil
  runs := ⟨base, rfl⟩

/-- The current document of a log is what all its operations give. -/
theorem IsLog.current {base : JsValue} (h : IsLog issueMessage base ledger)
    (hcurrent : currentComposition issueMessage ledger = .ok doc) :
    run (applyStep issueMessage) base
      (operationsUpTo ledger.compositionRevision ledger.actions) = some doc := by
  obtain ⟨doc', hreplay, hrun⟩ := h.replays le_rfl
  obtain rfl := Except.ok.inj (hcurrent.symm.trans hreplay)
  exact hrun

/-- One action more is numbered by the next revision. -/
theorem Numbered.append {actions : List DraftActionRecord} (h : Numbered 0 actions)
    {action : DraftActionRecord} (hsequence : action.sequence = actions.length + 1)
    (hbefore : action.beforeRevision = actions.length)
    (hafter : action.afterRevision = actions.length + 1) : Numbered 0 (actions ++ [action]) := by
  intro i next hnext
  by_cases hi : i < actions.length
  · rw [List.getElem?_append_left hi] at hnext
    exact h i next hnext
  · rw [List.getElem?_append_right (by omega)] at hnext
    have hlt := (List.getElem?_eq_some_iff.mp hnext).1
    obtain rfl : i = actions.length := by
      rw [List.length_singleton] at hlt
      omega
    rw [Nat.sub_self] at hnext
    obtain rfl := Option.some.inj hnext
    omega

/-- A new name is none of the names. -/
theorem IsNew.not_mem_ids {actionId : JsString} (h : IsNew ledger actionId) :
    actionId ∉ ids ledger := by
  simp only [ids, List.mem_append, List.mem_map, not_or, not_exists, not_and]
  exact h

/-- The operations of a log with one action more are those of the log and then its own. -/
theorem IsLog.operationsUpTo_withAction {base : JsValue} (h : IsLog issueMessage base ledger)
    (input : PublishDraftActionInput) (lineage : List DraftNodeLineage) :
    operationsUpTo (withAction ledger input lineage).compositionRevision
        (withAction ledger input lineage).actions =
      operationsUpTo ledger.compositionRevision ledger.actions ++ input.operations := by
  have hall : (ledger.actions ++ [actionRecord ledger input]).take
      (ledger.compositionRevision + 1) = ledger.actions ++ [actionRecord ledger input] := by
    rw [h.revision]
    exact List.take_of_length_le (by simp)
  have hbefore : ledger.actions.take ledger.compositionRevision = ledger.actions := by
    rw [h.revision, List.take_length]
  simp only [operationsUpTo, withAction, hall, hbefore, List.flatMap_append, List.flatMap_singleton]
  rfl

/-- What a call gives on a log is a log. -/
theorem IsLog.publishes {base : JsValue} (h : IsLog issueMessage base ledger)
    {result : PublishDraftActionResult} (hresult : Publishes issueMessage ledger input result) :
    IsLog issueMessage base result.ledger := by
  cases hresult with
  | kept answer => exact h
  | noted happlies hunchanged =>
    refine ⟨h.origin, h.revision, h.numbered, ?_, h.runs⟩
    have hids : ids (withReceipt ledger input) = ids ledger ++ [input.actionId] := by
      simp [ids, withReceipt, DraftActionLedger.receiptList, noChangeReceipt]
    rw [hids, List.nodup_middle, List.append_nil]
    exact List.nodup_cons.mpr ⟨happlies.isNew.not_mem_ids, h.distinct⟩
  | @published before after lineage happlies hchanged =>
    refine ⟨h.origin, ?_, ?_, ?_, ?_⟩
    · rw [withAction, List.length_append, h.revision]
      rfl
    · refine h.numbered.append rfl ?_ ?_
      · exact h.revision
      · exact congrArg (· + 1) h.revision
    · have hids : ids (withAction ledger input lineage) =
          ledger.actions.map DraftActionRecord.actionId ++ input.actionId ::
            ledger.receiptList.map DraftActionReceipt.actionId := by
        simp [ids, withAction, DraftActionLedger.receiptList, actionRecord]
      rw [hids, List.nodup_middle]
      exact List.nodup_cons.mpr ⟨happlies.isNew.not_mem_ids, h.distinct⟩
    · refine ⟨after, ?_⟩
      rw [h.operationsUpTo_withAction, run_append, h.current happlies.current]
      exact applyDraftYOps_eq_ok_iff.mp happlies.applied

/-! ## Later ledgers -/

/-- What a later ledger keeps: the base, the actions and receipts in their places, and the
document at every revision. -/
structure Extends (issueMessage : JsValue → JsString) (ledger later : DraftActionLedger) :
    Prop where
  /-- The base is the same. -/
  origin : later.base = ledger.base
  /-- The actions begin with the earlier ones. -/
  actions : ledger.actions <+: later.actions
  /-- The receipts begin with the earlier ones. -/
  receipts : ledger.receiptList <+: later.receiptList
  /-- There are as many revisions or more. -/
  revision : ledger.compositionRevision ≤ later.compositionRevision
  /-- Every revision is replayed as before. -/
  documents : ∀ r ≤ ledger.compositionRevision,
    replayToRevision issueMessage later r = replayToRevision issueMessage ledger r

/-- A ledger keeps what it has. -/
theorem Extends.refl (ledger : DraftActionLedger) : Extends issueMessage ledger ledger :=
  ⟨rfl, List.prefix_rfl, List.prefix_rfl, le_rfl, fun _ _ => rfl⟩

/-- What two steps keep is kept. -/
theorem Extends.trans {later last : DraftActionLedger} (h : Extends issueMessage ledger later)
    (h' : Extends issueMessage later last) : Extends issueMessage ledger last where
  origin := h'.origin.trans h.origin
  actions := h.actions.trans h'.actions
  receipts := h.receipts.trans h'.receipts
  revision := h.revision.trans h'.revision
  documents r hr := (h'.documents r (hr.trans h.revision)).trans (h.documents r hr)

/-- A call on a log keeps what the ledger has. -/
theorem IsLog.extends {base : JsValue} (h : IsLog issueMessage base ledger)
    {result : PublishDraftActionResult} (hresult : Publishes issueMessage ledger input result) :
    Extends issueMessage ledger result.ledger := by
  have hlater := h.publishes hresult
  cases hresult with
  | kept answer => exact Extends.refl ledger
  | noted happlies hunchanged =>
    exact ⟨rfl, List.prefix_rfl, List.prefix_append _ _, le_rfl, fun _ _ => rfl⟩
  | published happlies hchanged =>
    refine ⟨rfl, List.prefix_append _ _, List.prefix_rfl, Nat.le_succ _, fun r hr => ?_⟩
    obtain ⟨doc, hdoc, hrun⟩ := h.replays hr
    obtain ⟨doc', hdoc', hrun'⟩ := hlater.replays (hr.trans (Nat.le_succ _))
    have hsame : operationsUpTo r (ledger.actions ++ [actionRecord ledger input]) =
        operationsUpTo r ledger.actions := by
      rw [operationsUpTo, List.take_append_of_le_length (by rw [← h.revision]; exact hr)]
      rfl
    rw [withAction, hsame, hrun] at hrun'
    rw [hdoc, hdoc', Option.some.inj hrun']

/-- A later ledger has answered what the earlier one has. -/
theorem Answered.extends {later : DraftActionLedger} (h : Answered ledger input)
    (hlater : Extends issueMessage ledger later) : Answered later input := by
  rcases h with ⟨action, hmem, hfacts⟩ | ⟨receipt, hmem, hfacts⟩
  · exact Or.inl ⟨action, hlater.actions.subset hmem, hfacts⟩
  · exact Or.inr ⟨receipt, hlater.receipts.subset hmem, hfacts⟩

/-- After a call that answers that the ledger has what was asked for, it has. -/
theorem answered_of_isDone {result : PublishDraftActionResult}
    (hresult : Publishes issueMessage ledger input result)
    (hdone : result.answer.isDone = true) : Answered result.ledger input := by
  cases hresult with
  | kept answer h => exact h hdone
  | noted happlies hunchanged =>
    refine Or.inr ⟨noChangeReceipt ledger input, ?_, rfl, rfl⟩
    exact List.mem_append_right _ (List.mem_singleton_self _)
  | published happlies hchanged =>
    refine Or.inl ⟨actionRecord ledger input, ?_, rfl, rfl⟩
    exact List.mem_append_right _ (List.mem_singleton_self _)

/-- The answer to a request that is sent again. -/
def Answer.isRepeated : Answer → Bool
  | .reused _ => true
  | .noChange _ => true
  | _ => false

/-- An item is found by its name among items of distinct names. -/
theorem find?_of_nodup {T : Type} {name : T → JsString} {items : List T}
    (hnodup : (items.map name).Nodup) {item : T} (hmem : item ∈ items) :
    items.find? (fun other => decide (name other = name item)) = some item := by
  cases hfind : items.find? fun other => decide (name other = name item) with
  | none => simpa using List.find?_eq_none.mp hfind item hmem
  | some other =>
    have hname : name other = name item := by simpa using List.find?_some hfind
    exact congrArg some
      (List.inj_on_of_nodup_map hnodup (List.mem_of_find?_eq_some hfind) hmem hname)

/-- A log answers a request that it has answered with what it has. -/
theorem IsLog.repeats {base : JsValue} (h : IsLog issueMessage base ledger)
    (hanswered : Answered ledger input) :
    ∃ answer, publishDraftAction issueMessage ledger input = .ok ⟨answer, ledger⟩ ∧
      answer.isRepeated = true := by
  obtain ⟨hactions, hreceipts, hdisjoint⟩ := List.nodup_append.mp h.distinct
  unfold publishDraftAction
  rcases hanswered with ⟨action, hmem, hid, hdigest⟩ | ⟨receipt, hmem, hid, hdigest⟩
  · have hfound : actionById ledger input.actionId = some action := by
      rw [← hid]
      exact find?_of_nodup hactions hmem
    simp only [hfound, if_pos hdigest]
    exact ⟨_, rfl, rfl⟩
  · have hfound : receiptById ledger input.actionId = some receipt := by
      rw [← hid]
      exact find?_of_nodup hreceipts hmem
    have hnone : actionById ledger input.actionId = none := by
      refine List.find?_eq_none.mpr fun action haction => ?_
      have hne := hdisjoint _ (List.mem_map_of_mem haction) _ (List.mem_map_of_mem hmem)
      simpa [hid] using hne
    simp only [hnone, hfound, if_pos hdigest]
    exact ⟨_, rfl, rfl⟩

/-- A call on a log is answered when no operation is null. -/
theorem IsLog.answers {base : JsValue} (h : IsLog issueMessage base ledger)
    (hops : ∀ op ∈ input.operations, op ≠ .null) :
    ∃ result, publishDraftAction issueMessage ledger input = .ok result := by
  have hsources : ∃ found, input.operations.anyM hasOwnSource = .ok found := by
    revert hops
    generalize input.operations = ops
    intro hops
    induction ops with
    | nil => exact ⟨false, rfl⟩
    | cons op ops ih =>
      obtain ⟨hop, hrest⟩ := List.forall_mem_cons.mp hops
      obtain ⟨found, hfound⟩ := ih hrest
      have hown : hasOwnSource op = .ok (op.hasMember "source") := by
        cases op with
        | null => exact absurd rfl hop
        | _ => rfl
      rw [List.anyM, hown]
      cases hsource : op.hasMember "source" with
      | true => exact ⟨true, rfl⟩
      | false => exact ⟨found, hfound⟩
  obtain ⟨found, hfound⟩ := hsources
  obtain ⟨doc, hcurrent, -⟩ := h.replays le_rfl
  have hnew : ∃ result, publishNew issueMessage ledger input = .ok result := by
    unfold publishNew
    refine exists_bind hfound ?_
    cases found with
    | true => exact ⟨_, rfl⟩
    | false =>
      refine exists_bind hcurrent ?_
      split
      · exact ⟨_, rfl⟩
      · next after happlied =>
        obtain ⟨lineage, hlineage⟩ := exists_nextLineageFrom (ledger.compositionRevision + 1) 0
          ledger.lineage (applyDraftYOps_eq_ok_iff.mp happlied)
        refine exists_bind hlineage ?_
        split_ifs
        · exact ⟨_, rfl⟩
        · exact ⟨_, rfl⟩
  unfold publishDraftAction
  split
  · split_ifs
    · exact ⟨_, rfl⟩
    · exact ⟨_, rfl⟩
  · split_ifs
    · exact ⟨_, rfl⟩
    · exact ⟨_, rfl⟩
  · split
    · exact ⟨_, rfl⟩
    · split_ifs
      · exact ⟨_, rfl⟩
      · exact hnew

end

/-! ## Runs of calls -/

/-- The ledger after a call, if the call returns. -/
def publish (issueMessage : JsValue → JsString) (input : PublishDraftActionInput)
    (ledger : DraftActionLedger) : Option DraftActionLedger :=
  (publishDraftAction issueMessage ledger input).toOption.map PublishDraftActionResult.ledger

section

variable {issueMessage : JsValue → JsString} {base : JsValue} {ledger later : DraftActionLedger}
  {inputs : List PublishDraftActionInput}

/-- A call that returns is one of the cases. -/
theorem publishes_of_publish {input : PublishDraftActionInput}
    (h : publish issueMessage input ledger = some later) :
    ∃ result, Publishes issueMessage ledger input result ∧ result.ledger = later := by
  unfold publish at h
  obtain ⟨result, hresult, rfl⟩ := Option.map_eq_some_iff.mp h
  cases hcall : publishDraftAction issueMessage ledger input with
  | error message =>
    rw [hcall] at hresult
    cases hresult
  | ok result' =>
    rw [hcall] at hresult
    obtain rfl := Option.some.inj hresult
    exact ⟨result', publishes_of_publishDraftAction hcall, rfl⟩

/-- Calls on a log lead to logs. -/
theorem IsLog.run (h : IsLog issueMessage base ledger)
    (hrun : Run.run (publish issueMessage) ledger inputs = some later) :
    IsLog issueMessage base later := by
  refine run_invariant (fun input s t hstep hs => ?_) hrun h
  obtain ⟨result, hresult, rfl⟩ := publishes_of_publish hstep
  exact hs.publishes hresult

/-- Calls on a log keep what the ledger has. -/
theorem IsLog.extends_run (h : IsLog issueMessage base ledger)
    (hrun : Run.run (publish issueMessage) ledger inputs = some later) :
    Extends issueMessage ledger later := by
  have hstep : ∀ input s t, publish issueMessage input s = some t →
      IsLog issueMessage base s ∧ Extends issueMessage ledger s →
      IsLog issueMessage base t ∧ Extends issueMessage ledger t := by
    intro input s t hpublish hs
    obtain ⟨result, hresult, rfl⟩ := publishes_of_publish hpublish
    exact ⟨hs.1.publishes hresult, hs.2.trans (hs.1.extends hresult)⟩
  exact (run_invariant hstep hrun ⟨h, Extends.refl ledger⟩).2

/-- What holds of the ledger of a draft and of every call on it. -/
structure History (issueMessage : JsValue → JsString) (base : JsValue)
    (ledger : DraftActionLedger) : Prop where
  /-- There are as many revisions as actions. -/
  revision : ledger.compositionRevision = ledger.actions.length
  /-- The actions are numbered by the revisions. -/
  numbered : ∀ i action, ledger.actions[i]? = some action →
    action.sequence = i + 1 ∧ action.beforeRevision = i ∧ action.afterRevision = i + 1
  /-- No action and no receipt has the name of another. -/
  distinct : (ids ledger).Nodup
  /-- Every revision is what the operations of the actions up to it make of the base. -/
  documents : ∀ r ≤ ledger.compositionRevision, ∃ doc,
    replayToRevision issueMessage ledger r = .ok doc ∧
      run (applyStep issueMessage) base (operationsUpTo r ledger.actions) = some doc
  /-- A call is answered, unless an operation of it is null. -/
  answers : ∀ input, (∀ op ∈ input.operations, op ≠ .null) →
    ∃ result, publishDraftAction issueMessage ledger input = .ok result
  /-- A call that is refused leaves the ledger as it is. -/
  refusals : ∀ input result, publishDraftAction issueMessage ledger input = .ok result →
    result.answer.isDone = false → result.ledger = ledger
  /-- Later calls change no earlier revision. -/
  keeps : ∀ inputs later, Run.run (publish issueMessage) ledger inputs = some later →
    Extends issueMessage ledger later
  /-- A request that was carried out or changed nothing is not carried out again. -/
  repeats : ∀ input result, publishDraftAction issueMessage ledger input = .ok result →
    result.answer.isDone = true → ∀ inputs later,
      Run.run (publish issueMessage) result.ledger inputs = some later →
        ∃ answer, publishDraftAction issueMessage later input = .ok ⟨answer, later⟩ ∧
          answer.isRepeated = true

/-- Every ledger that calls lead to from a new one is an append-only, idempotent log. -/
theorem history_of_run (issueMessage : JsValue → JsString) {base : JsValue}
    {inputs : List PublishDraftActionInput} {ledger : DraftActionLedger}
    (h : Run.run (publish issueMessage) (createDraftActionLedger base) inputs = some ledger) :
    History issueMessage base ledger := by
  have hlog : IsLog issueMessage base ledger := (isLog_createDraftActionLedger base).run h
  refine
    { revision := hlog.revision
      numbered := fun i action haction => ?_
      distinct := hlog.distinct
      documents := fun r hr => hlog.replays hr
      answers := fun input hops => hlog.answers hops
      refusals := fun input result hresult hrefused => ?_
      keeps := fun more later hrun => hlog.extends_run hrun
      repeats := fun input result hresult hdone more later hrun => ?_ }
  · have hnumbered := hlog.numbered i action haction
    omega
  · cases publishes_of_publishDraftAction hresult with
    | kept answer => rfl
    | noted => cases hrefused
    | published => cases hrefused
  · have hpublishes := publishes_of_publishDraftAction hresult
    have hnext := hlog.publishes hpublishes
    exact (hnext.run hrun).repeats
      ((answered_of_isDone hpublishes hdone).extends (hnext.extends_run hrun))

/-- A draft on which one action is published, at revision 1. -/
theorem history_of_one_action :
    let base := JsValue.obj [(js "title", .str (js "plan"))]
    let input : PublishDraftActionInput := {
      actionId := js "a1", channel := .manual, actor := ⟨.human, js "u1", none⟩,
      operations := [.obj [(js "set", .obj [(js "path", .str (js "title")),
        (js "value", .str (js "draft"))])]],
      expectedRevision := .zero, publishedAt := js "2026-01-01T00:00:00Z", reason := none,
      generation := none, precondition := none, targetRevision := none }
    ∃ ledger, Run.run (publish fun _ => []) (createDraftActionLedger base) [input] = some ledger ∧
      ledger.compositionRevision = 1 ∧ History (fun _ => []) base ledger := by
  intro base input
  have hone : ((Run.run (publish fun _ => []) (createDraftActionLedger base) [input]).map
      DraftActionLedger.compositionRevision) = some 1 := by decide +kernel
  obtain ⟨ledger, hledger, hrevision⟩ := Option.map_eq_some_iff.mp hone
  exact ⟨ledger, hledger, hrevision, history_of_run _ hledger⟩

end

end T3x.Drafts
