import T3x.Yops.Replacements

/-!
# Recipes refine operations

A recipe that is made from a document for an operation that is applied to it is
applied too and gives a canonically equal document, exactly if it leaves nothing
out. A move of an item of a sequence leaves the item, and a nest of no keys the
new mapping.
-/

namespace T3x.Yops

open Js T3x.Run

variable {doc native base : JsValue} {fields : Record JsValue} {ops : List JsValue}
  {path : JsString} {segments : List PathSegment}

/-! ## Clones and moves -/

section Transfers

variable {issueMessage : JsValue → JsString} {op value between : JsValue}

/-- The recipe between two paths has the value at the source. -/
theorem transferRecipe_eq_some {make : JsString → JsString → JsValue → YOpsRecipe}
    {recipe : YOpsRecipe} (h : transferRecipe make doc fields = some recipe) :
    ∃ value, resolvePath doc (textField fields "from") = some value ∧
      resolvePath doc (textField fields "to") = none ∧
      recipe = make (textField fields "from") (textField fields "to") value := by
  obtain ⟨value, hvalue, h⟩ := Option.bind_eq_some_iff.mp h
  split_ifs at h with hfree
  exact ⟨value, hvalue, not_not.mp hfree, (Option.some.inj h).symm⟩

/-- The operations of a clone set the value at the destination. -/
theorem run_clone (issueMessage : JsValue → JsString) {destination source : JsString}
    (hsource : Parses fields "from")
    (hdestination : Parses fields "to") (hfrom : textField fields "from" = source)
    (hto : textField fields "to" = destination) (hvalue : resolvePath doc source = some value)
    (hfree : resolvePath doc destination = none)
    (hset : setAtPath doc destination value = .ok between)
    (hops : compileYOpsPathClone source destination value none = .ok ops) :
    run (applyStep issueMessage) doc ops = some between ∧ source ≠ [] := by
  obtain ⟨_, hdistinct, hops⟩ := bind_eq_ok_iff.mp hops
  obtain ⟨-, hops⟩ := refuse_eq_ok_iff.mp hops
  obtain rfl := Except.ok.inj hops
  obtain ⟨_, hpath, hdistinct⟩ := bind_eq_ok_iff.mp hdistinct
  obtain ⟨_, hpath', -⟩ := bind_eq_ok_iff.mp hdistinct
  have hne := ne_of_assertRecipePath hpath
  have hne' := ne_of_assertRecipePath hpath'
  subst hfrom hto
  obtain ⟨segments, hparse⟩ := hsource hne
  obtain ⟨segments', hparse'⟩ := hdestination hne'
  have hwrite : applyStep issueMessage (setValue (textField fields "to") value) doc =
      some between := by
    rw [applyStep_setValue hne' hparse', hset]
    rfl
  refine ⟨?_, hne⟩
  simp [run, applyStep_assertEquals hne hparse hvalue, applyStep_assertAbsent hne' hparse' hfree,
    hwrite]

/-- A clone is refined by its recipe. -/
theorem clone_refines {recipe : YOpsRecipe} (hsource : Parses fields "from")
    (hdestination : Parses fields "to") (hnative : cloneHandler doc fields 0 = .ok native)
    (hstep : applyStep issueMessage op doc = some native)
    (hrecipe : transferRecipe .clone doc fields = some recipe)
    (hops : compileYOpsRecipe recipe = .ok ops) : Refines issueMessage doc op ops := by
  obtain ⟨value, hvalue, hfree, rfl⟩ := transferRecipe_eq_some hrecipe
  obtain ⟨value', hvalue', hset⟩ := bind_eq_ok_iff.mp hnative
  obtain rfl := Option.some.inj (hvalue.symm.trans (valueAt_eq_ok_iff.mp hvalue'))
  rw [if_neg (by simp [hfree]), deepClone_eq] at hset
  obtain ⟨hrun, -⟩ := run_clone issueMessage hsource hdestination rfl rfl hvalue hfree
    (throwing_eq_ok_iff.mp hset) hops
  exact (refines_iff_of_run hstep hrun).mpr (JsValue.Same.refl _)

/-- The removal of a key that was deleted gives what the deletion gave. -/
theorem unsetHandler_of_delete {init : List PathSegment} {key : JsString}
    (hsegments : parsePath path = init ++ [.key key])
    (hdelete : deleteAtPath between path = some native) :
    unsetHandler between [(js "path", .str path)] 0 = .ok native := by
  have hpath : textField [(js "path", JsValue.str path)] "path" = path := rfl
  rw [deleteAtPath, hsegments] at hdelete
  obtain ⟨-, hthere, -⟩ := deleteAtPathSegments_eq_some_iff.mp hdelete
  rw [resolvePathSegments_append] at hthere
  unfold unsetHandler
  simp only [hpath, hsegments, List.getLast?_concat, List.dropLast_concat, hdelete,
    Option.getD_some]
  cases hparent : resolvePathSegments between init with
  | none => rfl
  | some parent =>
    rw [hparent, Option.bind_some, resolvePathSegments_cons] at hthere
    cases parent with
    | obj parent => rfl
    | arr items => cases hthere
    | _ => cases hthere

/-- The removal of what is no key fails. -/
theorem unsetHandler_of_not_key (h : ∀ key, (parsePath path).getLast? ≠ some (.key key)) :
    (unsetHandler between [(js "path", .str path)] 0).toOption = none := by
  have hpath : textField [(js "path", JsValue.str path)] "path" = path := rfl
  unfold unsetHandler
  simp only [hpath]
  rfl

/-- A move is refined by its recipe exactly if its source is a key. -/
theorem move_refines_iff {recipe : YOpsRecipe} (hsource : Parses fields "from")
    (hdestination : Parses fields "to") (hnative : moveHandler doc fields 0 = .ok native)
    (hstep : applyStep issueMessage op doc = some native)
    (hrecipe : transferRecipe .move doc fields = some recipe)
    (hops : compileYOpsRecipe recipe = .ok ops) :
    Refines issueMessage doc op ops ↔
      ∃ key, (parsePath (textField fields "from")).getLast? = some (.key key) := by
  obtain ⟨value, hvalue, hfree, rfl⟩ := transferRecipe_eq_some hrecipe
  obtain ⟨value', between, hvalue', -, hset, hdelete⟩ := moveHandler_eq_ok hnative
  obtain rfl := Option.some.inj (hvalue.symm.trans hvalue')
  obtain ⟨_, -, hops⟩ := bind_eq_ok_iff.mp hops
  obtain ⟨_, -, hops⟩ := bind_eq_ok_iff.mp hops
  obtain ⟨cloned, hcloned, hops⟩ := bind_eq_ok_iff.mp hops
  obtain rfl := Except.ok.inj hops
  obtain ⟨hrun, hne⟩ := run_clone issueMessage hsource hdestination rfl rfl hvalue
    hfree hset hcloned
  obtain ⟨segments, hparse⟩ := hsource hne
  have hall : run (applyStep issueMessage) doc (cloned ++ [unsetKey (textField fields "from")]) =
      (unsetHandler between [(js "path", .str (textField fields "from"))] 0).toOption := by
    rw [run_append, hrun, Option.bind_some, run_cons, applyStep_unsetKey hne hparse]
    exact Option.bind_fun_some _
  constructor
  · intro hrefines
    by_contra hkey
    rw [unsetHandler_of_not_key (not_exists.mp hkey)] at hall
    exact not_refines_of_run hall hrefines
  · rintro ⟨key, hlast⟩
    obtain ⟨init, hsegments⟩ := List.getLast?_eq_some_iff.mp hlast
    rw [unsetHandler_of_delete hsegments hdelete] at hall
    exact (refines_iff_of_run hstep hall).mpr (JsValue.Same.refl _)

end Transfers

/-! ## All recipes -/

/-- The texts of the members that the operation addresses one after the other name the members,
and the path of the mapping matches to the end. -/
def YOpsRecipe.NamesChildren : YOpsRecipe → Prop
  | .populate path _ values => (∀ e ∈ values, NamesChild path e.1) ∧
      ∀ name text, (parsePath path).getLast? = some (.match name text) →
        ∀ e ∈ values.dropLast, e.1 = name → matchEquals text e.2 = true
  | .nest path _ keys under => NamesGroups path [(under, keys)]
  | .split path _ into => NamesGroups path into
  | .merge path _ keys into => (∀ key ∈ keys, NamesChild path key) ∧ NamesChild path into
  | _ => True

/-- The recipe leaves nothing out: what it moves is the member of a mapping, it has keys to nest,
and its assignments define what they assign. -/
def YOpsRecipe.IsFaithful : YOpsRecipe → Prop
  | .move source _ _ => ∃ key, (parsePath source).getLast? = some (.key key)
  | .rename _ (.obj map) oldKey newKey => Assigns [] (renamedMembers map oldKey newKey)
  | .pick _ (.obj map) keys => Assigns [] (membersAt map keys)
  | .omit _ (.obj map) keys => keys = [] ∨ Assigns [] (membersBut map keys)
  | .populate _ (.obj map) values => Assigns map values
  | .nest _ (.obj map) keys under => keys ≠ [] ∧ AssignsGroups map [(under, keys)]
  | .split _ (.obj map) into => AssignsGroups map into
  | .fold path _ (.obj map) => ∀ wrapper folded, (parsePath path).getLast? = some (.key wrapper) →
      Record.get map wrapper = some (.obj folded) →
        Assigns [] (membersBut map [wrapper] ++ Record.entries folded)
  | .merge _ (.obj map) keys into =>
      Assigns [] (membersBut map keys ++
        [(into, .obj (Record.fromEntries (mergedEntries map keys)))]) ∧
      Assigns [] (mergedEntries map keys)
  | _ => True

section Main

variable {issueMessage : JsValue → JsString} {op : Record JsValue} {recipe : YOpsRecipe}

/-- A field that is not empty is the text of the path. -/
theorem get_of_textField {name : String} (h : textField fields name ≠ []) :
    Record.get fields (js name) = some (.str (textField fields name)) := by
  unfold textField at h ⊢
  cases hget : Record.get fields (js name) with
  | none =>
    rw [hget] at h
    exact absurd rfl h
  | some value =>
    rw [hget] at h
    cases value with
    | str text => rfl
    | _ => exact absurd rfl h

/-- An operation that is applied and has a recipe went to the handler of its name, and the recipe
is made from its fields. -/
theorem exists_call (hstep : applyStep issueMessage (.obj op) doc = some native)
    (hrecipe : createYOpsRecipeInvocationForNativeOperation doc op = some recipe) :
    ∃ maker ∈ recipeMakers, ∃ spec fields handler, getOpSpec (js maker.1) = some spec ∧
      getHandler (js maker.1) = some handler ∧ handler doc fields 0 = .ok native ∧
      maker.2 doc fields = some recipe ∧
      ∀ name ∈ spec.pathFields.toList, Parses fields name := by
  have hop := applyOp_of_applyStep 0 hstep
  rw [applyOp_eq_checkUpFront] at hop
  obtain ⟨call, hcall, -⟩ := bind_eq_ok_iff.mp hop
  obtain ⟨hschema, -⟩ := (checkUpFront_ok_iff issueMessage 0).mp ⟨call, hcall⟩
  obtain ⟨op', spec, fields, hop', hfits⟩ := unionSchema_iff.mp hschema
  obtain rfl := JsValue.obj.inj hop'
  obtain ⟨hparses, handler, hhandler, hresult⟩ := hfits.handler_of_applyStep hstep
  obtain ⟨maker, hfind, hrecipe⟩ := Option.bind_eq_some_iff.mp hrecipe
  have hmaker := List.mem_of_find?_eq_some hfind
  have hhas := List.find?_some hfind
  have hname : js maker.1 = js spec.name := by
    rcases hfits.keys _ (Record.mem_keys.mpr hhas) with hspec | hsource
    · exact hspec
    · have hnone : ∀ name ∈ recipeMakers.map Prod.fst, js name ≠ js "source" := by decide
      exact absurd hsource (hnone _ (List.mem_map_of_mem hmaker))
  rw [hname, hfits.body] at hrecipe
  refine ⟨maker, hmaker, spec, fields, handler, ?_, ?_, hresult, hrecipe, fun name hmem hne => ?_⟩
  · rw [hname]
    exact (getOpSpec_of_mem hfits.known).1
  · rw [hname]
    exact hhandler
  have hpath : textField fields name ∈ pathTexts spec fields := by
    refine List.mem_filterMap.mpr ⟨name, hmem, ?_⟩
    rw [get_of_textField hne]
    exact if_neg hne
  have hok := hparses _ hpath
  cases hparse : tryParsePath (textField fields name) with
  | ok segments => exact ⟨segments, rfl⟩
  | error e =>
    rw [hparse] at hok
    cases hok

/-- An operation that works on a mapping found one. -/
theorem exists_mapping {code what : String} {f : Record JsValue → Except HandlerFailure JsValue}
    (h : (mappingAt code what doc path 0 >>= f) = .ok native)
    (hbase : resolvePath doc path = some base) : ∃ map, base = .obj map := by
  obtain ⟨map, hmap, -⟩ := bind_eq_ok_iff.mp h
  exact ⟨map, Option.some.inj (hbase.symm.trans (mappingAt_eq_ok_iff.mp hmap))⟩

/-- A rename that is applied found a mapping. -/
theorem exists_mapping_of_rename {init : List PathSegment} {oldKey : JsString}
    (hnative : renameHandler doc fields 0 = .ok native)
    (hsegments : parsePath (textField fields "path") = init ++ [.key oldKey])
    (hbase : resolvePathSegments doc init = some base) : ∃ map, base = .obj map := by
  have hvalue : resolvePathSegments doc (init ++ [.key oldKey]) =
      (PathSegment.key oldKey).select base := by
    rw [resolvePathSegments_append, hbase, Option.bind_some, resolvePathSegments_cons]
    exact Option.bind_fun_some _
  unfold renameHandler at hnative
  simp only [hsegments, hvalue] at hnative
  cases base with
  | obj map => exact ⟨map, rfl⟩
  | arr items => cases hnative
  | _ => cases hnative

/-- A recipe that is made from the document for an operation that is applied refines the operation
exactly if it leaves nothing out, where the texts of the members name them. -/
theorem recipe_refines_iff (issueMessage : JsValue → JsString) (doc : JsValue)
    (op : Record JsValue) (recipe : YOpsRecipe) (ops : List JsValue)
    (hrecipe : createYOpsRecipeInvocationForNativeOperation doc op = some recipe)
    (hops : compileYOpsRecipe recipe = .ok ops)
    (hnative : (applyYOps issueMessage doc [.obj op]).ok = true)
    (hnames : recipe.NamesChildren) :
    Refines issueMessage doc (.obj op) ops ↔ recipe.IsFaithful := by
  obtain ⟨native, hstep, -⟩ := Option.bind_eq_some_iff.mp (run_of_applyYOps hnative)
  obtain ⟨maker, hmaker, spec, fields, handler, hspec, hhandler, hresult, hrecipe, hparses⟩ :=
    exists_call hstep hrecipe
  simp only [recipeMakers, List.mem_cons, List.not_mem_nil, or_false] at hmaker
  rcases hmaker with rfl | rfl | rfl | rfl | rfl | rfl | rfl | rfl | rfl | rfl | rfl | rfl | rfl <;>
    obtain rfl := Option.some.inj hhandler <;> obtain rfl := Option.some.inj hspec <;>
    dsimp only at hrecipe
  · obtain ⟨value, -, -, rfl⟩ := transferRecipe_eq_some hrecipe
    exact iff_of_true (clone_refines (hparses "from" (by decide)) (hparses "to" (by decide)) hresult
      hstep hrecipe hops) trivial
  · obtain ⟨value, -, -, rfl⟩ := transferRecipe_eq_some hrecipe
    exact move_refines_iff (hparses "from" (by decide)) (hparses "to" (by decide)) hresult hstep
      hrecipe hops
  · obtain ⟨init, key, base, hsegments, hprinted, hbase, rfl⟩ :=
      parentRecipe_eq_some (hparses "path" (by decide)) hrecipe
    obtain ⟨map, rfl⟩ := exists_mapping_of_rename hresult hsegments hbase
    obtain ⟨target, new, hreplacement, hiff⟩ :=
      rename_replacement hresult hsegments hprinted hbase hops
    exact (hreplacement.refines_iff hstep).trans hiff
  · obtain ⟨base, hbase, rfl⟩ := recipeAt_eq_some hrecipe
    obtain ⟨new, hreplacement⟩ :=
      append_replacement (hparses "path" (by decide)) hresult hbase hops
    exact (hreplacement.refines_iff hstep).trans (iff_of_true (JsValue.Same.refl _) trivial)
  · obtain ⟨base, hbase, rfl⟩ := recipeBelow_eq_some hrecipe
    obtain ⟨map, rfl⟩ := exists_mapping hresult hbase
    obtain ⟨target, new, hreplacement, hiff⟩ :=
      pick_replacement (hparses "path" (by decide)) hresult hbase hops
    exact (hreplacement.refines_iff hstep).trans hiff
  · obtain ⟨base, hbase, rfl⟩ := recipeBelow_eq_some hrecipe
    obtain ⟨map, rfl⟩ := exists_mapping hresult hbase
    obtain ⟨target, new, hreplacement, hiff⟩ :=
      omit_replacement (hparses "path" (by decide)) hresult hbase hops
    exact (hreplacement.refines_iff hstep).trans hiff
  · obtain ⟨base, hbase, rfl⟩ := recipeAt_eq_some hrecipe
    obtain ⟨map, rfl⟩ := exists_mapping hresult hbase
    obtain ⟨target, new, hreplacement, hiff⟩ := populate_replacement (hparses "path" (by decide))
      hresult hbase hops hnames.1 hnames.2
    exact (hreplacement.refines_iff hstep).trans hiff
  · obtain ⟨base, hbase, rfl⟩ := recipeBelow_eq_some hrecipe
    obtain ⟨map, rfl⟩ := exists_mapping hresult hbase
    obtain ⟨target, new, hreplacement, hiff⟩ :=
      nest_replacement (hparses "path" (by decide)) hresult hbase hops hnames
    exact (hreplacement.refines_iff hstep).trans hiff
  · obtain ⟨base, hbase, rfl⟩ := recipeBelow_eq_some hrecipe
    obtain ⟨map, rfl⟩ := exists_mapping hresult hbase
    obtain ⟨target, new, hreplacement, hiff⟩ :=
      split_replacement (hparses "path" (by decide)) hresult hbase hops hnames
    exact (hreplacement.refines_iff hstep).trans hiff
  · obtain ⟨init, key, base, hsegments, hprinted, hbase, rfl⟩ :=
      parentRecipe_eq_some (hparses "path" (by decide)) hrecipe
    obtain ⟨_, _, map, _, _, _, hsegments', hbase', -⟩ := foldHandler_eq_ok hresult
    obtain ⟨rfl, -⟩ := List.append_inj' (hsegments.symm.trans hsegments') rfl
    obtain rfl := Option.some.inj (hbase.symm.trans hbase')
    obtain ⟨target, new, folded, hfolded, hreplacement, hiff⟩ :=
      fold_replacement hresult hsegments hprinted hbase hops
    refine (hreplacement.refines_iff hstep).trans (hiff.trans ?_)
    have hlast : (parsePath (textField fields "path")).getLast? = some (.key key) := by
      rw [hsegments, List.getLast?_concat]
    refine ⟨fun hassigns wrapper folded' hwrapper hfolded' => ?_, fun h => h key folded hlast hfolded⟩
    obtain rfl := PathSegment.key.inj (Option.some.inj (hlast.symm.trans hwrapper))
    obtain rfl := JsValue.obj.inj (Option.some.inj (hfolded.symm.trans hfolded'))
    exact hassigns
  · obtain ⟨base, hbase, rfl⟩ := recipeBelow_eq_some hrecipe
    obtain ⟨map, rfl⟩ := exists_mapping hresult hbase
    obtain ⟨target, new, hreplacement, hiff⟩ := merge_replacement (hparses "path" (by decide))
      hresult hbase hops hnames.1 hnames.2
    exact (hreplacement.refines_iff hstep).trans hiff
  · obtain ⟨base, hbase, rfl⟩ := recipeAt_eq_some hrecipe
    obtain ⟨new, hreplacement⟩ := sort_replacement (hparses "path" (by decide)) hresult hbase hops
    exact (hreplacement.refines_iff hstep).trans (iff_of_true (JsValue.Same.refl _) trivial)
  · obtain ⟨base, hbase, rfl⟩ := recipeAt_eq_some hrecipe
    obtain ⟨new, hreplacement⟩ := unique_replacement (hparses "path" (by decide)) hresult hbase hops
    exact (hreplacement.refines_iff hstep).trans (iff_of_true (JsValue.Same.refl _) trivial)

/-- Moving a member. -/
theorem recipe_refines_iff_move :
    Refines (fun _ => js "Invalid input") (.obj [(js "a", .null)])
        (.obj [(js "move", .obj [(js "from", .str (js "a")), (js "to", .str (js "b"))])])
        [assertEquals (js "a") .null, assertAbsent (js "b"), setValue (js "b") .null,
          unsetKey (js "a")] ↔
      (YOpsRecipe.move (js "a") (js "b") .null).IsFaithful :=
  recipe_refines_iff _ (.obj [(js "a", .null)])
    [(js "move", .obj [(js "from", .str (js "a")), (js "to", .str (js "b"))])]
    (.move (js "a") (js "b") .null) _ (by rfl) (by rfl) (by decide) trivial

/-- Moving an item of a sequence is no recipe: the item cannot be removed. -/
theorem recipe_leaves_item :
    createYOpsRecipeInvocationForNativeOperation (.obj [(js "a", .arr [.null])])
        [(js "move", .obj [(js "from", .str (js "a/[0]")), (js "to", .str (js "b"))])] =
      some (.move (js "a/[0]") (js "b") .null) ∧
    compileYOpsRecipe (.move (js "a/[0]") (js "b") .null) =
      .ok [assertEquals (js "a/[0]") .null, assertAbsent (js "b"), setValue (js "b") .null,
        unsetKey (js "a/[0]")] ∧
    (applyYOps (fun _ => js "Invalid input") (.obj [(js "a", .arr [.null])])
        [.obj [(js "move", .obj [(js "from", .str (js "a/[0]")), (js "to", .str (js "b"))])]]).ok =
      true ∧
    ¬ Refines (fun _ => js "Invalid input") (.obj [(js "a", .arr [.null])])
      (.obj [(js "move", .obj [(js "from", .str (js "a/[0]")), (js "to", .str (js "b"))])])
      [assertEquals (js "a/[0]") .null, assertAbsent (js "b"), setValue (js "b") .null,
        unsetKey (js "a/[0]")] := by
  refine ⟨by rfl, by rfl, by decide, fun hrefines => ?_⟩
  have hfails : (applyYOps (fun _ => js "Invalid input") (.obj [(js "a", .arr [.null])])
      [assertEquals (js "a/[0]") .null, assertAbsent (js "b"), setValue (js "b") .null,
        unsetKey (js "a/[0]")]).ok = false := by decide
  rw [hrefines.1] at hfails
  cases hfails

end Main

end T3x.Yops
