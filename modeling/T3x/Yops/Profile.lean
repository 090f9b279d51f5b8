import T3x.Yops.Roots

/-!
# Compiling operations to the primitive profile

Each operation of a list is replaced by the recipe that is made for it, where
the recipe gives the document that the operation gives; the others are retained.
Assertions, writes and removals have no recipe, so a list of them is retained.
-/

namespace T3x.Yops

open Js

/-- The operations of the recipe for an operation on a document, if it has one that compiles. -/
def expansionOf (current op : JsValue) : Option (List JsValue) :=
  match op with
  | .obj record =>
    (createYOpsRecipeInvocationForNativeOperation current record).bind fun invocation =>
      (compileYOpsRecipe invocation).toOption
  | _ => none

section

variable (issueMessage : JsValue → JsString)

/-- `compileYOpsOperationsToPrimitiveProfile(input).operations`. From the first operation on that
fails all are retained. -/
def compileYOpsOperationsToPrimitiveProfile (current : JsValue) : List JsValue → List JsValue
  | [] => []
  | op :: ops =>
    let nativeResult := applyYOps issueMessage current [op]
    if nativeResult.ok then
      let retained := op :: compileYOpsOperationsToPrimitiveProfile nativeResult.doc ops
      match expansionOf current op with
      | some expansion =>
        let compiledResult := applyYOps issueMessage current expansion
        if compiledResult.ok ∧ canonicalJson compiledResult.doc = canonicalJson nativeResult.doc then
          expansion ++ compileYOpsOperationsToPrimitiveProfile nativeResult.doc ops
        else retained
      | none => retained
    else op :: ops

/-- Operations without a recipe are retained. -/
theorem compile_of_expansionOf {current : JsValue} {ops : List JsValue}
    (h : ∀ op ∈ ops, ∀ doc, expansionOf doc op = none) :
    compileYOpsOperationsToPrimitiveProfile issueMessage current ops = ops := by
  induction ops generalizing current with
  | nil => rfl
  | cons op ops ih =>
    unfold compileYOpsOperationsToPrimitiveProfile
    simp only [h op List.mem_cons_self, ih fun op hop => h op (List.mem_cons_of_mem _ hop), ite_self]

end

/-- A form of an operation that no recipe is made for has none. -/
theorem expansionOf_of_same {name : String} {payload : Record JsValue} {form : JsValue}
    (hname : ∀ maker ∈ recipeMakers, js maker.1 ≠ js name)
    (h : JsValue.Same form (.obj [(js name, .obj payload)])) (doc : JsValue) :
    expansionOf doc form = none := by
  obtain ⟨op, -, rfl, hkeys, -, -⟩ := exists_payload_of_same h
  have hnone : recipeMakers.find? (fun maker => Record.has op (js maker.1)) = none := by
    rw [List.find?_eq_none]
    intro maker hmaker hhas
    exact hname maker hmaker (hkeys _ (Record.mem_keys.mpr hhas))
  simp only [expansionOf, createYOpsRecipeInvocationForNativeOperation, hnone]
  rfl

/-- Forms of the edit of a root key are retained. -/
theorem expansionOf_rootEdit {before after : Option JsValue} {key : JsString} {op form : JsValue}
    (hop : op ∈ rootEdit before after key) (h : JsValue.Same form op) (doc : JsValue) :
    expansionOf doc form = none := by
  have hassert : ∀ maker ∈ recipeMakers, js maker.1 ≠ js "assert" := by decide
  have hset : ∀ maker ∈ recipeMakers, js maker.1 ≠ js "set" := by decide
  have hunset : ∀ maker ∈ recipeMakers, js maker.1 ≠ js "unset" := by decide
  rw [rootEdit, List.mem_cons, List.mem_singleton] at hop
  rcases hop with rfl | rfl
  · cases before <;> exact expansionOf_of_same hassert h doc
  · cases after with
    | none => exact expansionOf_of_same hunset h doc
    | some after => exact expansionOf_of_same hset h doc

end T3x.Yops
