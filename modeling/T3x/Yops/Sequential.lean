import T3x.Run
import T3x.Yops.Engine

/-!
# Runs are sequential and atomic

A handler's failure depends on the index of its operation only by naming it, and
so does the engine's error, but for the two messages that spell the index out. A
run over two lists is the run over the first and then the run over the second
from the document reached, and a failing run ends at the first operation that
fails and gives the original document back.
-/

namespace T3x.Yops

open Js T3x.Run

/-! ## Failures at another index -/

/-- The error at another index. -/
def YopsError.at (index : ℕ) (e : YopsError) : YopsError := { e with opIndex := index }

/-- The failure at another index. -/
def HandlerFailure.at (index : ℕ) : HandlerFailure → HandlerFailure
  | .error e => .error (e.at index)
  | .thrown message => .thrown message

/-- The second result is the first with its failure moved to another index. -/
def Moves {T : Type} (index : ℕ) (x y : Except HandlerFailure T) : Prop :=
  y = x.mapError (HandlerFailure.at index)

section

variable {T U : Type} {i j : ℕ}

/-- A good result is the same at every index. -/
theorem Moves.ok (a : T) : Moves j (.ok a) (.ok a) := rfl

/-- A returned result is the same at every index. -/
theorem Moves.pure (a : T) : Moves j (Pure.pure a) (Pure.pure a) := rfl

/-- A reported error names its index. -/
theorem Moves.report (code : String) (message : JsString) :
    Moves j (report code message i : Except HandlerFailure T) (report code message j) := rfl

/-- What is thrown is the same at every index. -/
theorem Moves.throwing (step : Except JsString T) : Moves j (throwing step) (throwing step) := by
  cases step <;> rfl

/-- Sequences of results that move do. -/
theorem Moves.bind {x y : Except HandlerFailure T} {f g : T → Except HandlerFailure U}
    (h : Moves j x y) (hf : ∀ a, Moves j (f a) (g a)) : Moves j (x >>= f) (y >>= g) := by
  obtain rfl := h
  cases x with
  | error e => rfl
  | ok a => exact hf a

/-- Branches that move do. -/
theorem Moves.ite {c : Prop} [Decidable c] {x x' y y' : Except HandlerFailure T}
    (h : Moves j x y) (h' : Moves j x' y') :
    Moves j (if c then x else x') (if c then y else y') := by
  split_ifs
  · exact h
  · exact h'

/-- A loop whose steps move does. -/
theorem Moves.forM {items : List U} {f g : U → Except HandlerFailure PUnit}
    (h : ∀ item, Moves j (f item) (g item)) : Moves j (items.forM f) (items.forM g) := by
  induction items with
  | nil => exact .pure _
  | cons item items ih => exact (h item).bind fun _ => ih

/-- A step for a value that may be absent moves when the step does. -/
theorem Moves.optionForM {item : Option U} {f g : U → Except HandlerFailure PUnit}
    (h : ∀ item, Moves j (f item) (g item)) : Moves j (item.forM f) (item.forM g) := by
  cases item with
  | none => exact .pure _
  | some item => exact h item

/-- A fold whose steps move does. -/
theorem Moves.foldlM {items : List U} {f g : T → U → Except HandlerFailure T} {a : T}
    (h : ∀ a item, Moves j (f a item) (g a item)) :
    Moves j (items.foldlM f a) (items.foldlM g a) := by
  induction items generalizing a with
  | nil => exact .pure _
  | cons item items ih =>
    rw [List.foldlM_cons, List.foldlM_cons]
    exact (h a item).bind fun _ => ih

/-- A map whose steps move does. -/
theorem Moves.mapM {items : List U} {f g : U → Except HandlerFailure T}
    (h : ∀ item, Moves j (f item) (g item)) : Moves j (items.mapM f) (items.mapM g) := by
  induction items with
  | nil => exact .pure _
  | cons item items ih =>
    rw [List.mapM_cons, List.mapM_cons]
    exact (h item).bind fun _ => ih.bind fun _ => .pure _

end

/-! ## The handlers at another index -/

section

variable {doc : JsValue} {path : JsString} {fields : Record JsValue} {i j : ℕ}

/-- Reading a value at a path. -/
theorem moves_valueAt : Moves j (valueAt doc path i) (valueAt doc path j) := by
  unfold valueAt
  cases resolvePath doc path with
  | none => exact .report ..
  | some value => exact .ok _

/-- Reading a mapping at a path. -/
theorem moves_mappingAt {code what : String} :
    Moves j (mappingAt code what doc path i) (mappingAt code what doc path j) := by
  unfold mappingAt
  apply moves_valueAt.bind
  intro value
  cases value with
  | obj map => exact .pure _
  | _ => exact .report ..

/-- Reading a sequence at a path. -/
theorem moves_sequenceAt : Moves j (sequenceAt doc path i) (sequenceAt doc path j) := by
  unfold sequenceAt
  apply moves_valueAt.bind
  intro value
  cases value with
  | arr items => exact .pure _
  | _ => exact .report ..

/-- Testing that keys are siblings. -/
theorem moves_checkSiblings {map : Record JsValue} {keys : List JsString} :
    Moves j (checkSiblings map path keys i) (checkSiblings map path keys j) := by
  unfold checkSiblings
  cases keys.find? fun key => !Record.has map key with
  | none => exact .ok _
  | some key => exact .report ..

/-- Testing that every item has a key. -/
theorem moves_checkBy {op : String} {sortKey : JsString} {items : List JsValue} :
    Moves j (checkBy op path sortKey items i) (checkBy op path sortKey items j) := by
  unfold checkBy
  apply Moves.forM
  intro item
  cases item with
  | obj map => exact .ite (.ok _) (.report ..)
  | _ => exact .report ..

/-- `define` at another index. -/
theorem moves_defineHandler :
    Moves j (defineHandler doc fields i) (defineHandler doc fields j) := by
  unfold defineHandler
  simp only
  split
  · exact .report ..
  · split
    · exact .report ..
    · split
      · exact .report ..
      · exact .ite (.report ..) (.ok _)
      · exact .report ..

/-- `drop` at another index. -/
theorem moves_dropHandler : Moves j (dropHandler doc fields i) (dropHandler doc fields j) := by
  unfold dropHandler
  simp only
  split
  · exact .ok _
  · exact .report ..

/-- `rename` at another index. -/
theorem moves_renameHandler :
    Moves j (renameHandler doc fields i) (renameHandler doc fields j) := by
  unfold renameHandler
  simp only
  split
  · exact .report ..
  · split
    · exact .ite (.report ..) (.ok _)
    · exact .ok _
  · exact .report ..

/-- `set` at another index. -/
theorem moves_setHandler : Moves j (setHandler doc fields i) (setHandler doc fields j) := by
  unfold setHandler
  simp only
  split
  · exact .ok _
  · exact .report ..

/-- `unset` at another index. -/
theorem moves_unsetHandler : Moves j (unsetHandler doc fields i) (unsetHandler doc fields j) := by
  unfold unsetHandler
  simp only
  split
  · split
    · exact .ok _
    · exact .ok _
    · exact .report ..
  · exact .report ..

/-- `populate` at another index. -/
theorem moves_populateHandler :
    Moves j (populateHandler doc fields i) (populateHandler doc fields j) := by
  unfold populateHandler
  apply moves_mappingAt.bind
  intro _
  apply Moves.foldlM
  intro current e
  split
  · exact .ok _
  · exact .report ..

/-- `append` at another index. -/
theorem moves_appendHandler :
    Moves j (appendHandler doc fields i) (appendHandler doc fields j) :=
  moves_sequenceAt.bind fun _ => .throwing _

/-- `move` at another index. -/
theorem moves_moveHandler : Moves j (moveHandler doc fields i) (moveHandler doc fields j) := by
  unfold moveHandler
  refine .ite (.report ..) (.ite (.report ..) (moves_valueAt.bind fun value => ?_))
  refine .ite (.report ..) ((Moves.throwing _).bind fun moved => ?_)
  split
  · exact .pure _
  · exact .report ..

/-- `clone` at another index. -/
theorem moves_cloneHandler : Moves j (cloneHandler doc fields i) (cloneHandler doc fields j) :=
  moves_valueAt.bind fun _ => .ite (.report ..) (.throwing _)

/-- `nest` at another index. -/
theorem moves_nestHandler : Moves j (nestHandler doc fields i) (nestHandler doc fields j) :=
  moves_mappingAt.bind fun _ => moves_checkSiblings.bind fun _ =>
    .ite (.report ..) (.throwing _)

/-- `split` at another index. -/
theorem moves_splitHandler : Moves j (splitHandler doc fields i) (splitHandler doc fields j) := by
  unfold splitHandler
  apply moves_mappingAt.bind
  intro target
  simp only
  split
  · exact .report ..
  · split
    · exact .report ..
    · split
      · exact .report ..
      · exact .throwing _

/-- `fold` at another index. -/
theorem moves_foldHandler : Moves j (foldHandler doc fields i) (foldHandler doc fields j) := by
  unfold foldHandler
  apply moves_mappingAt.bind
  intro target
  split
  · split
    · exact .throwing _
    · exact .report ..
  · exact .report ..

/-- `merge` at another index. -/
theorem moves_mergeHandler : Moves j (mergeHandler doc fields i) (mergeHandler doc fields j) := by
  unfold mergeHandler
  refine moves_mappingAt.bind fun target => moves_checkSiblings.bind fun _ => ?_
  refine (Moves.mapM fun key => ?_).bind fun parts => .throwing _
  split
  · exact .ok _
  · exact .report ..

/-- `sort` at another index. -/
theorem moves_sortHandler : Moves j (sortHandler doc fields i) (sortHandler doc fields j) :=
  moves_sequenceAt.bind fun _ => (Moves.optionForM fun _ => moves_checkBy).bind fun _ =>
    .throwing _

/-- `unique` at another index. -/
theorem moves_uniqueHandler :
    Moves j (uniqueHandler doc fields i) (uniqueHandler doc fields j) :=
  moves_sequenceAt.bind fun _ => (Moves.optionForM fun _ => moves_checkBy).bind fun _ =>
    .throwing _

/-- `pick` and `omit` at another index. -/
theorem moves_keepMembers {chosen : List JsString → JsString → Bool} :
    Moves j (keepMembers chosen doc fields i) (keepMembers chosen doc fields j) :=
  moves_mappingAt.bind fun _ => .throwing _

/-- `pick` at another index. -/
theorem moves_pickHandler : Moves j (pickHandler doc fields i) (pickHandler doc fields j) :=
  moves_keepMembers

/-- `omit` at another index. -/
theorem moves_omitHandler : Moves j (omitHandler doc fields i) (omitHandler doc fields j) :=
  moves_keepMembers

/-- `assert` at another index. -/
theorem moves_assertHandler :
    Moves j (assertHandler doc fields i) (assertHandler doc fields j) := by
  have hvalue : ∀ path, Moves j ((resolvePath doc path).elim
      (report "ASSERTION_FAILED" (about "Path \"" path "\" does not exist") i) Pure.pure)
      ((resolvePath doc path).elim
        (report "ASSERTION_FAILED" (about "Path \"" path "\" does not exist") j) Pure.pure) := by
    intro path
    cases resolvePath doc path with
    | none => exact .report ..
    | some value => exact .pure _
  unfold assertHandler
  refine (Moves.optionForM fun expected => ?_).bind fun _ =>
    (Moves.optionForM fun expected => ?_).bind fun _ =>
    (Moves.optionForM fun expected => ?_).bind fun _ => .pure _
  · exact .ite (.report ..) (.ite (.report ..) (.ok _))
  · exact (hvalue _).bind fun actual => .ite (.report ..) (.ok _)
  · exact (hvalue _).bind fun actual => .ite (.report ..) (.ok _)

/-- Every handler fails at another index as it does at this one. -/
theorem moves_handlers {entry : String × OpHandler} (h : entry ∈ handlers) :
    Moves j (entry.2 doc fields i) (entry.2 doc fields j) := by
  simp only [handlers, List.mem_cons, List.not_mem_nil, or_false] at h
  rcases h with rfl | rfl | rfl | rfl | rfl | rfl | rfl | rfl | rfl | rfl | rfl | rfl | rfl |
    rfl | rfl | rfl | rfl | rfl
  · exact moves_defineHandler
  · exact moves_dropHandler
  · exact moves_renameHandler
  · exact moves_setHandler
  · exact moves_unsetHandler
  · exact moves_populateHandler
  · exact moves_appendHandler
  · exact moves_moveHandler
  · exact moves_cloneHandler
  · exact moves_nestHandler
  · exact moves_splitHandler
  · exact moves_foldHandler
  · exact moves_mergeHandler
  · exact moves_sortHandler
  · exact moves_uniqueHandler
  · exact moves_pickHandler
  · exact moves_omitHandler
  · exact moves_assertHandler

end

/-! ## The engine at another index -/

/-- Whether the operation is a mapping with an operation key. -/
def HasOperationKey (rawOp : JsValue) : Prop :=
  ∃ op opName, rawOp = .obj op ∧ resolveOpName op = some opName

section

variable {rawOp : JsValue} {i j : ℕ}

/-- A field error names its index. -/
theorem validateFields_at {opName : JsString} {fields : Record JsValue} {spec : OpSpec} :
    validateFields opName fields spec j =
      (validateFields opName fields spec i).mapError (YopsError.at j) := by
  unfold validateFields
  split
  · rfl
  · split
    · rfl
    · split
      · rfl
      · rfl

/-- Of an operation with a key the first checks say the same at every index. -/
theorem resolveCall_at (h : HasOperationKey rawOp) :
    resolveCall rawOp j = (resolveCall rawOp i).mapError (YopsError.at j) := by
  obtain ⟨op, opName, rfl, hname⟩ := h
  unfold resolveCall
  simp only [hname]
  split
  · split
    · rw [validateFields_at (i := i) (j := j)]
      cases validateFields opName _ _ i with
      | error e => rfl
      | ok _ => rfl
    · rfl
  · rfl

/-- An operation without a key fails with the message that names its index. -/
theorem resolveCall_of_not_hasOperationKey (h : ¬ HasOperationKey rawOp) :
    resolveCall rawOp i = .error ⟨"INVALID_OP", outerMessage rawOp i, i⟩ := by
  unfold resolveCall
  split
  · next op =>
    split
    · rfl
    · next opName hname => exact absurd ⟨op, opName, rfl, hname⟩ h
  · rfl

/-- The handler of a call is a registered one. -/
theorem handler_mem_of_resolveCall {call : OpCall} (h : resolveCall rawOp i = .ok call) :
    ∃ entry ∈ handlers, entry.2 = call.handler := by
  unfold resolveCall at h
  split at h
  · split at h
    · cases h
    · split at h
      · next handler spec hhandler hspec =>
        split at h
        · obtain ⟨-, -, hcall⟩ := bind_eq_ok_iff.mp h
          obtain rfl := Except.ok.inj hcall
          obtain ⟨entry, hentry, hsnd⟩ := Option.map_eq_some_iff.mp hhandler
          exact ⟨entry, List.mem_of_find?_eq_some hentry, hsnd⟩
        · cases h
      · cases h
  · cases h

/-- The schema and the paths are checked alike at every index. -/
theorem checkCall_at {issueMessage : JsValue → JsString} :
    checkCall issueMessage rawOp j =
      (checkCall issueMessage rawOp i).mapError (YopsError.at j) := by
  unfold checkCall
  split_ifs
  · induction getOpPaths rawOp with
    | nil => rfl
    | cons path paths ih =>
      rw [List.forM, List.forM, ih]
      cases tryParsePath path with
      | error e => rfl
      | ok _ => rfl
  · rfl

/-- A handler runs alike at every index. -/
theorem runHandler_at {call : OpCall} {current : JsValue}
    (h : ∃ entry ∈ handlers, entry.2 = call.handler) :
    runHandler call current j = (runHandler call current i).mapError (YopsError.at j) := by
  obtain ⟨entry, hentry, heq⟩ := h
  have hmove : Moves j (entry.2 current call.fields i) (entry.2 current call.fields j) :=
    moves_handlers hentry
  rw [heq] at hmove
  unfold runHandler
  rw [hmove]
  rcases call.handler current call.fields i with (e | message) | doc
  · rfl
  · rfl
  · rfl

/-- An operation with a key is applied alike at every index. -/
theorem applyOp_at {issueMessage : JsValue → JsString} {current : JsValue}
    (h : HasOperationKey rawOp) :
    (applyOp issueMessage rawOp current j).1 =
      (applyOp issueMessage rawOp current i).1.mapError (YopsError.at j) := by
  unfold applyOp
  rw [resolveCall_at h (i := i) (j := j)]
  cases hcall : resolveCall rawOp i with
  | error e => rfl
  | ok call =>
    simp only [Except.mapError]
    rw [checkCall_at (i := i) (j := j),
      runHandler_at (handler_mem_of_resolveCall hcall) (i := i) (j := j)]
    cases checkCall issueMessage rawOp i with
    | error e => rfl
    | ok _ => rfl

/-- An operation without a key is not applied. -/
theorem applyOp_of_not_hasOperationKey {issueMessage : JsValue → JsString} {current : JsValue}
    (h : ¬ HasOperationKey rawOp) :
    (applyOp issueMessage rawOp current i).1 =
      .error ⟨"INVALID_OP", outerMessage rawOp i, i⟩ := by
  unfold applyOp
  rw [resolveCall_of_not_hasOperationKey h]

end

/-! ## Runs -/

section

variable (issueMessage : JsValue → JsString)

/-- The document after one operation, if it does not fail. -/
def applyStep (rawOp current : JsValue) : Option JsValue :=
  (applyOp issueMessage rawOp current 0).1.toOption

variable {issueMessage} {rawOp current doc next : JsValue} {ops : List JsValue}

/-- Whether an operation is applied does not depend on its index. -/
theorem toOption_applyOp (index : ℕ) :
    (applyOp issueMessage rawOp current index).1.toOption =
      applyStep issueMessage rawOp current := by
  unfold applyStep
  by_cases hkey : HasOperationKey rawOp
  · rw [applyOp_at hkey (i := 0) (j := index)]
    cases (applyOp issueMessage rawOp current 0).1 with
    | error e => rfl
    | ok next => rfl
  · rw [applyOp_of_not_hasOperationKey hkey, applyOp_of_not_hasOperationKey hkey]
    rfl

/-- An operation that is applied, at any index. -/
theorem applyOp_of_applyStep (index : ℕ) (h : applyStep issueMessage rawOp current = some next) :
    (applyOp issueMessage rawOp current index).1 = .ok next := by
  rw [← toOption_applyOp index] at h
  cases hop : (applyOp issueMessage rawOp current index).1 with
  | error e =>
    rw [hop] at h
    cases h
  | ok doc =>
    rw [hop] at h
    exact congrArg _ (Option.some.inj h)

/-- An operation that fails has an error, at any index. -/
theorem exists_error_of_applyStep (index : ℕ) (h : applyStep issueMessage rawOp current = none) :
    ∃ e, (applyOp issueMessage rawOp current index).1 = .error e := by
  rw [← toOption_applyOp index] at h
  cases hop : (applyOp issueMessage rawOp current index).1 with
  | error e => exact ⟨e, rfl⟩
  | ok doc =>
    rw [hop] at h
    cases h

/-- The engine gives the document that the run gives. -/
theorem applyFrom_of_run (original : JsValue) (index : ℕ) (warnings : List YopsWarning)
    (h : run (applyStep issueMessage) current ops = some doc) :
    ∃ more, applyFrom issueMessage original index current warnings ops =
      { ok := true, doc, applied := index + ops.length, error := none, warnings := more } := by
  induction ops generalizing index current warnings with
  | nil =>
    obtain rfl := Option.some.inj h
    exact ⟨warnings, rfl⟩
  | cons op ops ih =>
    obtain ⟨next, hnext, hrest⟩ := Option.bind_eq_some_iff.mp h
    obtain ⟨more, hmore⟩ :=
      ih (index + 1) (warnings ++ (applyOp issueMessage op current index).2) hrest
    refine ⟨more, ?_⟩
    have hop := applyOp_of_applyStep index hnext
    unfold applyFrom
    split
    · next next' more' heq =>
      rw [heq] at hop hmore
      obtain rfl := Except.ok.inj hop
      rw [hmore, List.length_cons]
      congr 1
      omega
    · next e more' heq =>
      rw [heq] at hop
      cases hop

/-- The engine stops at the first operation that fails. -/
theorem applyFrom_of_failure (original : JsValue) (index : ℕ) (warnings : List YopsWarning)
    {before : List JsValue} (after : List JsValue)
    (h : run (applyStep issueMessage) current before = some doc)
    (hfail : applyStep issueMessage rawOp doc = none) :
    ∃ e more, (applyOp issueMessage rawOp doc (index + before.length)).1 = .error e ∧
      applyFrom issueMessage original index current warnings (before ++ rawOp :: after) =
        { ok := false, doc := original, applied := index + before.length, error := some e,
          warnings := more } := by
  induction before generalizing index current warnings with
  | nil =>
    obtain rfl := Option.some.inj h
    obtain ⟨e, he⟩ := exists_error_of_applyStep index hfail
    refine ⟨e, warnings ++ (applyOp issueMessage rawOp current index).2, he, ?_⟩
    rw [List.nil_append]
    unfold applyFrom
    split
    · next next' more' heq =>
      rw [heq] at he
      cases he
    · next e' more' heq =>
      rw [heq] at he ⊢
      obtain rfl := Except.error.inj he
      rfl
  | cons op before ih =>
    obtain ⟨next, hnext, hrest⟩ := Option.bind_eq_some_iff.mp h
    obtain ⟨e, more, he, hmore⟩ :=
      ih (index + 1) (warnings ++ (applyOp issueMessage op current index).2) hrest
    have hlength : index + 1 + before.length = index + (op :: before).length := by
      rw [List.length_cons]
      omega
    rw [hlength] at he hmore
    refine ⟨e, more, he, ?_⟩
    have hop := applyOp_of_applyStep index hnext
    rw [List.cons_append]
    unfold applyFrom
    split
    · next next' more' heq =>
      rw [heq] at hop hmore
      obtain rfl := Except.ok.inj hop
      exact hmore
    · next e' more' heq =>
      rw [heq] at hop
      cases hop

end

/-! ## The laws of the engine -/

/-- An error is that of the same operation `shift` operations earlier, under its own
index: the message is the same unless it spells the index out. -/
structure ShiftedBy (shift : ℕ) (rawOp : JsValue) (e e' : YopsError) : Prop where
  /-- The code is the same. -/
  code : e'.code = e.code
  /-- The index is shifted. -/
  opIndex : e'.opIndex = shift + e.opIndex
  /-- Of an operation with a key the message is the same. -/
  message : HasOperationKey rawOp → e'.message = e.message
  /-- Of another operation the message is the same text about its index. -/
  outer : ¬ HasOperationKey rawOp → e.message = outerMessage rawOp e.opIndex ∧
    e'.message = outerMessage rawOp e'.opIndex

/-- The result of two lists in a row, from that of the second list alone, which
begins `shift` operations later. -/
structure Continues (shift : ℕ) (ops : List JsValue) (r r' : YopsResult) : Prop where
  /-- Both runs succeed or both fail. -/
  ok : r'.ok = r.ok
  /-- The documents of runs that succeed are equal. -/
  doc : r.ok = true → r'.doc = r.doc
  /-- Runs that fail do so at the same operation, with the same error. -/
  failure : r.ok = false → r'.applied = shift + r.applied ∧
    ∃ rawOp e e', ops[r.applied]? = some rawOp ∧ r.error = some e ∧ r'.error = some e' ∧
      ShiftedBy shift rawOp e e'

/-- A failing run ends at the first operation that fails and gives back the document. -/
structure FailsAtFirst (issueMessage : JsValue → JsString) (doc : JsValue) (ops : List JsValue) :
    Prop where
  /-- The document is the original one. -/
  restored : (applyYOps issueMessage doc ops).doc = doc
  /-- The operations before are applied, one after the other. -/
  before : ∀ k ≤ (applyYOps issueMessage doc ops).applied,
    (applyYOps issueMessage doc (ops.take k)).ok = true
  /-- The operation fails, at its index, on the document that those before it give. -/
  fails : ∃ rawOp e, ops[(applyYOps issueMessage doc ops).applied]? = some rawOp ∧
    (applyYOps issueMessage doc ops).error = some e ∧
    e.opIndex = (applyYOps issueMessage doc ops).applied ∧
    (applyOp issueMessage rawOp
      (applyYOps issueMessage doc (ops.take (applyYOps issueMessage doc ops).applied)).doc
      (applyYOps issueMessage doc ops).applied).1 = .error e

/-- Runs are sequential and atomic. -/
structure RunLaws (issueMessage : JsValue → JsString) : Prop where
  /-- A run that succeeds can be continued. -/
  continues : ∀ doc ops ops', (applyYOps issueMessage doc ops).ok = true →
    Continues ops.length ops' (applyYOps issueMessage (applyYOps issueMessage doc ops).doc ops')
      (applyYOps issueMessage doc (ops ++ ops'))
  /-- A run that fails does so at the first operation that fails. -/
  atomic : ∀ doc ops, (applyYOps issueMessage doc ops).ok = false →
    FailsAtFirst issueMessage doc ops

section

variable {issueMessage : JsValue → JsString} {doc next rawOp : JsValue}
  {ops before : List JsValue}

/-- The result of a run that succeeds. -/
theorem applyYOps_of_run (h : run (applyStep issueMessage) doc ops = some next) :
    ∃ more, applyYOps issueMessage doc ops =
      { ok := true, doc := next, applied := ops.length, error := none, warnings := more } := by
  unfold applyYOps
  rw [deepClone_eq, deepClone_eq]
  obtain ⟨more, hmore⟩ := applyFrom_of_run doc 0 [] h
  rw [Nat.zero_add] at hmore
  exact ⟨more, hmore⟩

/-- The result of a run that fails. -/
theorem applyYOps_of_failure (after : List JsValue)
    (h : run (applyStep issueMessage) doc before = some next)
    (hfail : applyStep issueMessage rawOp next = none) :
    ∃ e more, (applyOp issueMessage rawOp next before.length).1 = .error e ∧
      applyYOps issueMessage doc (before ++ rawOp :: after) =
        { ok := false, doc, applied := before.length, error := some e, warnings := more } := by
  unfold applyYOps
  rw [deepClone_eq, deepClone_eq]
  obtain ⟨e, more, he, hmore⟩ := applyFrom_of_failure doc 0 [] after h hfail
  rw [Nat.zero_add] at he hmore
  exact ⟨e, more, he, hmore⟩

/-- The engine succeeds exactly where the run does. -/
theorem run_of_applyYOps (h : (applyYOps issueMessage doc ops).ok = true) :
    run (applyStep issueMessage) doc ops = some (applyYOps issueMessage doc ops).doc := by
  cases hrun : run (applyStep issueMessage) doc ops with
  | some next =>
    obtain ⟨more, hmore⟩ := applyYOps_of_run hrun
    rw [hmore]
  | none =>
    obtain ⟨before, rawOp, after, next, rfl, hbefore, hfail⟩ := exists_first_failure hrun
    obtain ⟨e, more, -, hmore⟩ := applyYOps_of_failure after hbefore hfail
    rw [hmore] at h
    cases h

/-- An error names the index of its operation. -/
theorem opIndex_of_applyOp {index : ℕ} {e : YopsError}
    (h : (applyOp issueMessage rawOp doc index).1 = .error e) : e.opIndex = index := by
  by_cases hkey : HasOperationKey rawOp
  · rw [applyOp_at hkey (i := index) (j := index)] at h
    cases hop : (applyOp issueMessage rawOp doc index).1 with
    | ok next =>
      rw [hop] at h
      cases h
    | error e' =>
      rw [hop] at h
      obtain rfl := Except.error.inj h
      rfl
  · rw [applyOp_of_not_hasOperationKey hkey] at h
    obtain rfl := Except.error.inj h
    rfl

/-- The errors of one operation at two indices. -/
theorem shiftedBy_of_applyOp {shift index : ℕ} {e e' : YopsError}
    (h : (applyOp issueMessage rawOp doc index).1 = .error e)
    (h' : (applyOp issueMessage rawOp doc (shift + index)).1 = .error e') :
    ShiftedBy shift rawOp e e' := by
  have hindex := opIndex_of_applyOp h
  have hindex' := opIndex_of_applyOp h'
  by_cases hkey : HasOperationKey rawOp
  · rw [applyOp_at hkey (i := index) (j := shift + index), h] at h'
    obtain rfl := Except.error.inj h'
    exact ⟨rfl, by rw [hindex', hindex], fun _ => rfl, fun hnot => absurd hkey hnot⟩
  · rw [applyOp_of_not_hasOperationKey hkey] at h h'
    obtain rfl := Except.error.inj h
    obtain rfl := Except.error.inj h'
    exact ⟨rfl, rfl, fun h => absurd h hkey, fun _ => ⟨rfl, rfl⟩⟩

end

/-- A run that succeeds can be continued: its document is where the next list begins. -/
theorem applyYOps_continues (issueMessage : JsValue → JsString) {doc : JsValue}
    {ops ops' : List JsValue} (h : (applyYOps issueMessage doc ops).ok = true) :
    Continues ops.length ops' (applyYOps issueMessage (applyYOps issueMessage doc ops).doc ops')
      (applyYOps issueMessage doc (ops ++ ops')) := by
  have hrun := run_of_applyYOps h
  generalize (applyYOps issueMessage doc ops).doc = next at hrun
  cases hrest : run (applyStep issueMessage) next ops' with
  | some last =>
    have hall : run (applyStep issueMessage) doc (ops ++ ops') = some last := by
      rw [run_append, hrun]
      exact hrest
    obtain ⟨more, hmore⟩ := applyYOps_of_run hrest
    obtain ⟨more', hmore'⟩ := applyYOps_of_run hall
    rw [hmore, hmore']
    exact ⟨rfl, fun _ => rfl, fun hfalse => absurd hfalse Bool.true_eq_false.mp⟩
  | none =>
    obtain ⟨before, rawOp, after, last, rfl, hbefore, hfail⟩ := exists_first_failure hrest
    have hall : run (applyStep issueMessage) doc (ops ++ before) = some last := by
      rw [run_append, hrun]
      exact hbefore
    obtain ⟨e, more, he, hmore⟩ := applyYOps_of_failure after hbefore hfail
    obtain ⟨e', more', he', hmore'⟩ := applyYOps_of_failure after hall hfail
    rw [List.append_assoc] at hmore'
    rw [List.length_append] at he' hmore'
    rw [hmore, hmore']
    refine ⟨rfl, fun htrue => absurd htrue Bool.false_ne_true, fun _ => ⟨rfl, rawOp, e, e', ?_⟩⟩
    exact ⟨by simp, rfl, rfl, shiftedBy_of_applyOp he he'⟩

/-- A failing run ends at the first operation that fails and gives back the document. -/
theorem applyYOps_failsAtFirst (issueMessage : JsValue → JsString) {doc : JsValue}
    {ops : List JsValue} (h : (applyYOps issueMessage doc ops).ok = false) :
    FailsAtFirst issueMessage doc ops := by
  cases hrun : run (applyStep issueMessage) doc ops with
  | some next =>
    obtain ⟨more, hmore⟩ := applyYOps_of_run hrun
    rw [hmore] at h
    cases h
  | none =>
    obtain ⟨before, rawOp, after, next, rfl, hbefore, hfail⟩ := exists_first_failure hrun
    obtain ⟨e, more, he, hmore⟩ := applyYOps_of_failure after hbefore hfail
    constructor
    · rw [hmore]
    · rw [hmore]
      intro k hk
      have htake : before = before.take k ++ before.drop k := (List.take_append_drop k before).symm
      rw [htake, run_append] at hbefore
      obtain ⟨middle, hmiddle, -⟩ := Option.bind_eq_some_iff.mp hbefore
      obtain ⟨more', hmore'⟩ := applyYOps_of_run hmiddle
      rw [List.take_append_of_le_length hk, hmore']
    · obtain ⟨more', hmore'⟩ := applyYOps_of_run hbefore
      rw [hmore]
      refine ⟨rawOp, e, by simp, rfl, opIndex_of_applyOp he, ?_⟩
      rw [List.take_left', hmore']
      · exact he
      · rfl

/-- Runs are sequential and atomic, whatever the schema library writes in its messages. -/
theorem applyYOps_runLaws (issueMessage : JsValue → JsString) : RunLaws issueMessage where
  continues _ _ _ := applyYOps_continues issueMessage
  atomic _ _ := applyYOps_failsAtFirst issueMessage

/-- The message about an operation that is no mapping spells its index out, so it
changes with the number of operations before it. -/
theorem applyYOps_outer_message_shifts :
    let issueMessage : JsValue → JsString := fun _ => js "Invalid input"
    let setNull := JsValue.obj
      [(js "set", .obj [(js "path", .str (js "a")), (js "value", .null)])]
    let first := applyYOps issueMessage (.obj []) [setNull]
    first.ok = true ∧
      (applyYOps issueMessage first.doc [.null]).ok = false ∧
      (applyYOps issueMessage (.obj []) ([setNull] ++ [.null])).error.map YopsError.message ≠
        (applyYOps issueMessage first.doc [.null]).error.map YopsError.message := by
  decide

end T3x.Yops
