import T3x.Yops.Replay

/-!
# Recipes that replace a part

Every recipe but a clone or a move replaces one mapping or sequence, and its
operation puts a mapping or a sequence there too. The two are compared by what
is read of them: the recipe has what the operation has where its assignments
define what they assign. The operations that address the members one after the
other do this only where the text of every child names the child.
-/

namespace T3x.Yops

open Js T3x.Run

variable {doc native base item : JsValue} {fields : Record JsValue} {ops : List JsValue}
  {path : JsString} {segments : List PathSegment} {keys : List JsString} {map : Record JsValue}

/-! ## What the compilers assert -/

/-- The path of a recipe is not empty. -/
theorem ne_of_assertRecipePath {u : Unit} (h : assertRecipePath path = .ok u) : path ≠ [] := by
  rintro rfl
  cases h

/-- The base of a recipe for mappings is one. -/
theorem assertMappingValue_eq_ok {label : JsString} (h : assertMappingValue base label = .ok map) :
    base = .obj map := by
  cases base with
  | obj members => exact congrArg _ (Except.ok.inj h)
  | _ => cases h

/-- The base of a recipe for sequences is one. -/
theorem assertSequenceValue_eq_ok {label : JsString} {items : List JsValue}
    (h : assertSequenceValue base label = .ok items) : base = .arr items := by
  cases base with
  | arr values => exact congrArg _ (Except.ok.inj h)
  | _ => cases h

/-- The listed keys are members. -/
theorem has_of_assertMappingKeyList {action : String} {u : Unit}
    (h : assertMappingKeyList keys map action = .ok u) :
    ∀ key ∈ keys, Record.has map key = true := by
  obtain ⟨out, hfold, -⟩ := bind_eq_ok_iff.mp h
  clear h
  generalize ([] : List JsString) = seen at hfold
  induction keys generalizing seen with
  | nil => simp
  | cons key keys ih =>
    obtain ⟨next, hnext, hrest⟩ := bind_eq_ok_iff.mp hfold
    refine List.forall_mem_cons.mpr ⟨?_, ih next hrest⟩
    obtain ⟨_, -, hnext⟩ := bind_eq_ok_iff.mp hnext
    obtain ⟨-, hnext⟩ := refuse_eq_ok_iff.mp hnext
    obtain ⟨hhas, -⟩ := refuse_eq_ok_iff.mp hnext
    exact not_not.mp hhas

/-! ## What is at the path of an operation -/

/-- The recipe for what is at the path has it for its base. -/
theorem recipeAt_eq_some {make : JsString → JsValue → Record JsValue → YOpsRecipe}
    {recipe : YOpsRecipe} (h : recipeAt make doc fields = some recipe) :
    ∃ base, resolvePath doc (textField fields "path") = some base ∧
      recipe = make (textField fields "path") base fields := by
  obtain ⟨base, hbase, hrecipe⟩ := Option.bind_eq_some_iff.mp h
  exact ⟨base, hbase, (Option.some.inj hrecipe).symm⟩

/-- So has the recipe below a path. -/
theorem recipeBelow_eq_some {make : JsString → JsValue → Record JsValue → YOpsRecipe}
    {recipe : YOpsRecipe} (h : recipeBelow make doc fields = some recipe) :
    ∃ base, resolvePath doc (textField fields "path") = some base ∧
      recipe = make (textField fields "path") base fields := by
  unfold recipeBelow at h
  split_ifs at h
  exact recipeAt_eq_some h

/-- A path field that is not empty is well formed. -/
def Parses (fields : Record JsValue) (name : String) : Prop :=
  textField fields name ≠ [] → ∃ segments, tryParsePath (textField fields name) = .ok segments

/-- The recipe for the mapping that holds a member has the printed path of the mapping. -/
theorem parentRecipe_eq_some
    {make : JsString → JsString → JsValue → Record JsValue → YOpsRecipe} {recipe : YOpsRecipe}
    (hparses : Parses fields "path") (h : parentRecipe make doc fields = some recipe) :
    ∃ init key base, parsePath (textField fields "path") = init ++ [.key key] ∧
      tryParsePath (formatPathSegments init) = .ok init ∧
      resolvePathSegments doc init = some base ∧
      recipe = make (formatPathSegments init) key base fields := by
  obtain ⟨⟨parentPath, key⟩, hsplit, h⟩ := Option.bind_eq_some_iff.mp h
  simp only at h
  split_ifs at h
  obtain ⟨base, hbase, hrecipe⟩ := Option.bind_eq_some_iff.mp h
  have hne : textField fields "path" ≠ [] := by
    intro hnil
    rw [hnil] at hsplit
    cases hsplit
  obtain ⟨segments, hparse⟩ := hparses hne
  have hsegments := parsePath_of_tryParsePath hparse
  unfold splitLastKeyPath at hsplit
  rw [hsegments] at hsplit ⊢
  split at hsplit
  · next key' hlast =>
    obtain ⟨init, rfl⟩ := List.getLast?_eq_some_iff.mp hlast
    obtain ⟨rfl, rfl⟩ := Prod.mk.inj (Option.some.inj hsplit)
    have hprinted : tryParsePath (formatPathSegments init) = .ok init :=
      tryParsePath_format fun s hs => wellFormed_tryParsePath hparse s (List.mem_append_left _ hs)
    rw [List.dropLast_concat] at hbase hrecipe
    rw [resolvePath, parsePath_of_tryParsePath hprinted] at hbase
    exact ⟨init, _, base, rfl, hprinted, hbase, (Option.some.inj hrecipe).symm⟩
  · cases hsplit

/-! ## Sequences -/

/-- A replacement of what is at the path of the operation. -/
theorem replacement_at {target new : JsValue} (hparses : Parses fields "path")
    (hne : textField fields "path" ≠ [])
    (hbase : resolvePath doc (textField fields "path") = some base)
    (hobject : isObject base = true)
    (hreplaces : Replaces (textField fields "path") base target ops)
    (hset : setAtPath doc (textField fields "path") new = .ok native) :
    Replacement doc native ops (textField fields "path") base target new := by
  rw [setAtPath_eq_replaceAt hbase hobject] at hset
  obtain rfl := Except.ok.inj hset
  exact ⟨hne, hparses hne, hbase, hobject, hreplaces, JsValue.Same.refl _⟩

/-- An append and its recipe write the same sequence. -/
theorem append_replacement (hparses : Parses fields "path")
    (hnative : appendHandler doc fields 0 = .ok native)
    (hbase : resolvePath doc (textField fields "path") = some base)
    (hops : compileYOpsSequenceAppend (textField fields "path") base (valueField fields "value") =
      .ok ops) :
    ∃ new, Replacement doc native ops (textField fields "path") base new new := by
  obtain ⟨_, hpath, hops⟩ := bind_eq_ok_iff.mp hops
  obtain ⟨items, hitems, hops⟩ := bind_eq_ok_iff.mp hops
  obtain rfl := assertSequenceValue_eq_ok hitems
  obtain rfl := Except.ok.inj hops
  obtain ⟨items', hitems', hset⟩ := bind_eq_ok_iff.mp hnative
  have hitems' := hbase.symm.trans (sequenceAt_eq_ok_iff.mp hitems')
  obtain rfl := JsValue.arr.inj (Option.some.inj hitems')
  have hset := throwing_eq_ok_iff.mp hset
  rw [deepClone_eq] at hset
  exact ⟨_, replacement_at hparses (ne_of_assertRecipePath hpath) hbase rfl .write hset⟩

/-- A sort and its recipe write the same sequence. -/
theorem sort_replacement (hparses : Parses fields "path")
    (hnative : sortHandler doc fields 0 = .ok native)
    (hbase : resolvePath doc (textField fields "path") = some base)
    (hops : compileYOpsSequenceSort (textField fields "path") base (optionalText fields "by")
      (optionalText fields "order") = .ok ops) :
    ∃ new, Replacement doc native ops (textField fields "path") base new new := by
  obtain ⟨_, hpath, hops⟩ := bind_eq_ok_iff.mp hops
  obtain ⟨items, hitems, hops⟩ := bind_eq_ok_iff.mp hops
  obtain ⟨_, -, hops⟩ := bind_eq_ok_iff.mp hops
  obtain rfl := assertSequenceValue_eq_ok hitems
  obtain rfl := Except.ok.inj hops
  obtain ⟨items', hitems', hset⟩ := bind_eq_ok_iff.mp hnative
  obtain ⟨_, -, hset⟩ := bind_eq_ok_iff.mp hset
  have hitems' := hbase.symm.trans (sequenceAt_eq_ok_iff.mp hitems')
  obtain rfl := JsValue.arr.inj (Option.some.inj hitems')
  exact ⟨_, replacement_at hparses (ne_of_assertRecipePath hpath) hbase rfl
    (replaces_mappingPathReplacement _ _ _) (throwing_eq_ok_iff.mp hset)⟩

/-- Removing duplicates and its recipe write the same sequence. -/
theorem unique_replacement (hparses : Parses fields "path")
    (hnative : uniqueHandler doc fields 0 = .ok native)
    (hbase : resolvePath doc (textField fields "path") = some base)
    (hops : compileYOpsSequenceUnique (textField fields "path") base (optionalText fields "by") =
      .ok ops) :
    ∃ new, Replacement doc native ops (textField fields "path") base new new := by
  obtain ⟨_, hpath, hops⟩ := bind_eq_ok_iff.mp hops
  obtain ⟨items, hitems, hops⟩ := bind_eq_ok_iff.mp hops
  obtain ⟨_, -, hops⟩ := bind_eq_ok_iff.mp hops
  obtain rfl := assertSequenceValue_eq_ok hitems
  obtain rfl := Except.ok.inj hops
  obtain ⟨items', hitems', hset⟩ := bind_eq_ok_iff.mp hnative
  obtain ⟨_, -, hset⟩ := bind_eq_ok_iff.mp hset
  have hitems' := hbase.symm.trans (sequenceAt_eq_ok_iff.mp hitems')
  obtain rfl := JsValue.arr.inj (Option.some.inj hitems')
  exact ⟨_, replacement_at hparses (ne_of_assertRecipePath hpath) hbase rfl
    (replaces_mappingPathReplacement _ _ _) (throwing_eq_ok_iff.mp hset)⟩

/-! ## Mappings -/

/-- The members under the keys, as the operations gather them. -/
theorem foldl_membersAt (map : Record JsValue) (keys : List JsString) :
    (membersAt map keys).foldl (fun m e => Record.setOwn m e.1 e.2) [] = gather map keys := by
  simp [membersAt, gather, List.foldl_map]

/-- The members under other keys. -/
theorem get_membersBut (map : Record JsValue) (keys : List JsString) (key : JsString) :
    Record.get (membersBut map keys) key = if key ∈ keys then none else Record.get map key := by
  unfold membersBut
  split_ifs with hmem
  · exact Record.get_filter_none fun value => by simp [hmem]
  · rw [Record.get_filter fun value => by simp [hmem], Record.get_entries]

/-- The members under other keys, defined in an empty mapping. -/
theorem get_foldl_membersBut (map : Record JsValue) (keys : List JsString) (key : JsString) :
    Record.get ((membersBut map keys).foldl (fun m e => Record.setOwn m e.1 e.2) []) key =
      if key ∈ keys then none else Record.get map key := by
  have hnodup : ((membersBut map keys).map Prod.fst).Nodup :=
    (Record.keys_nodup map).sublist (List.filter_sublist.map Prod.fst)
  rw [← get_membersBut]
  exact Record.get_fromEntries hnodup key

/-- A pick and its recipe write the same mapping exactly if the recipe defines the keys. -/
theorem pick_replacement (hparses : Parses fields "path")
    (hnative : pickHandler doc fields 0 = .ok native)
    (hbase : resolvePath doc (textField fields "path") = some (.obj map))
    (hops : compileYOpsMappingKeyPick (textField fields "path") (.obj map)
      (keysField fields "keys") = .ok ops) :
    ∃ target new, Replacement doc native ops (textField fields "path") (.obj map) target new ∧
      (JsValue.Same target new ↔ Assigns [] (membersAt map (keysField fields "keys"))) := by
  obtain ⟨_, hpath, hops⟩ := bind_eq_ok_iff.mp hops
  obtain ⟨map', hmap, hops⟩ := bind_eq_ok_iff.mp hops
  obtain rfl := Except.ok.inj hmap
  obtain ⟨_, hkeys, hops⟩ := bind_eq_ok_iff.mp hops
  have hthere := has_of_assertMappingKeyList hkeys
  have hreplaces : Replaces (textField fields "path") (.obj map)
      (.obj (assignAll [] (membersAt map (keysField fields "keys")))) ops := by
    simp only at hops
    split_ifs at hops with hsame
    · obtain rfl := Except.ok.inj hops
      exact .nothing (canonicalKey_eq_iff.mp hsame).symm
    · obtain rfl := Except.ok.inj hops
      exact .write
  obtain ⟨map', hmap, hset⟩ := bind_eq_ok_iff.mp hnative
  have hmap := hbase.symm.trans (mappingAt_eq_ok_iff.mp hmap)
  obtain rfl := JsValue.obj.inj (Option.some.inj hmap)
  refine ⟨_, _, replacement_at hparses (ne_of_assertRecipePath hpath) hbase rfl hreplaces
    (throwing_eq_ok_iff.mp hset), same_assignAll_iff fun key => ?_⟩
  rw [foldl_membersAt, get_gather]
  split_ifs with hmem
  · obtain ⟨member, hmember⟩ := Record.has_eq_true.mp (hthere key hmem)
    rw [Record.get_filter fun value => by simp [hmem], Record.get_entries, hmember,
      Option.getD_some]
  · exact Record.get_filter_none fun value => by simp [hmem]

/-- An omit and its recipe write the same mapping exactly if the recipe defines the members it
keeps. -/
theorem omit_replacement (hparses : Parses fields "path")
    (hnative : omitHandler doc fields 0 = .ok native)
    (hbase : resolvePath doc (textField fields "path") = some (.obj map))
    (hops : compileYOpsMappingKeyOmit (textField fields "path") (.obj map)
      (keysField fields "keys") = .ok ops) :
    ∃ target new, Replacement doc native ops (textField fields "path") (.obj map) target new ∧
      (JsValue.Same target new ↔ keysField fields "keys" = [] ∨
        Assigns [] (membersBut map (keysField fields "keys"))) := by
  obtain ⟨_, hpath, hops⟩ := bind_eq_ok_iff.mp hops
  obtain ⟨map', hmap, hops⟩ := bind_eq_ok_iff.mp hops
  obtain rfl := Except.ok.inj hmap
  obtain ⟨map', hmap, hset⟩ := bind_eq_ok_iff.mp hnative
  have hmap := hbase.symm.trans (mappingAt_eq_ok_iff.mp hmap)
  obtain rfl := JsValue.obj.inj (Option.some.inj hmap)
  have hset := throwing_eq_ok_iff.mp hset
  split_ifs at hops with hempty
  · -- nothing is omitted, and nothing is written
    obtain rfl := Except.ok.inj hops
    have hnil := List.length_eq_zero_iff.mp hempty
    refine ⟨.obj map, _, replacement_at hparses (ne_of_assertRecipePath hpath) hbase rfl
      (.nothing (JsValue.Same.refl _)) hset, iff_of_true (same_obj_of_get fun key => ?_) (.inl hnil)⟩
    have hget := get_membersBut map (keysField fields "keys") key
    rw [if_neg (by simp [hnil])] at hget
    exact hget.symm
  · obtain ⟨_, -, hops⟩ := bind_eq_ok_iff.mp hops
    obtain rfl := Except.ok.inj hops
    refine ⟨_, _, replacement_at hparses (ne_of_assertRecipePath hpath) hbase rfl .write hset, ?_⟩
    have hne : keysField fields "keys" ≠ [] := fun hnil => hempty (by rw [hnil]; rfl)
    rw [or_iff_right hne]
    refine same_assignAll_iff fun key => ?_
    rw [get_foldl_membersBut]
    exact get_membersBut map _ key

/-- A change in place replaces what is there by what it makes of it. -/
theorem updateAtPathSegments_eq_replaceAt (change : JsValue → JsValue)
    (h : resolvePathSegments doc segments = some base) :
    updateAtPathSegments change segments doc = replaceAt (change base) segments doc := by
  induction segments generalizing doc with
  | nil =>
    obtain rfl := Option.some.inj h
    rfl
  | cons segment rest ih =>
    rw [resolvePathSegments_cons] at h
    obtain ⟨part, hpart, hbase⟩ := Option.bind_eq_some_iff.mp h
    rw [replaceAt_cons hpart, ← ih hbase, updateAtPathSegments, hpart]

/-- The members of a mapping with one key renamed. -/
def renamedMembers (map : Record JsValue) (oldKey newKey : JsString) : Record JsValue :=
  (Record.entries map).map fun e => (if e.1 = oldKey then newKey else e.1, e.2)

/-- A rename and its recipe write the same mapping exactly if the recipe defines the members. -/
theorem rename_replacement {init : List PathSegment} {oldKey : JsString}
    (hnative : renameHandler doc fields 0 = .ok native)
    (hsegments : parsePath (textField fields "path") = init ++ [.key oldKey])
    (hprinted : tryParsePath (formatPathSegments init) = .ok init)
    (hbase : resolvePathSegments doc init = some (.obj map))
    (hops : compileYOpsMappingKeyRename (formatPathSegments init) (.obj map) oldKey
      (textField fields "to") = .ok ops) :
    ∃ target new, Replacement doc native ops (formatPathSegments init) (.obj map) target new ∧
      (JsValue.Same target new ↔
        Assigns [] (renamedMembers map oldKey (textField fields "to"))) := by
  have hresolve : resolvePath doc (formatPathSegments init) = some (.obj map) := by
    rw [resolvePath, parsePath_of_tryParsePath hprinted, hbase]
  -- the operation refuses a name that is taken, the old one among them
  have hrenamed : Record.has map (textField fields "to") = false ∧
      native = replaceAt (renameKey oldKey (textField fields "to") (.obj map)) init doc ∧
        Record.has map oldKey = true := by
    have hvalue : resolvePathSegments doc (init ++ [.key oldKey]) = Record.get map oldKey := by
      rw [resolvePathSegments_append, hbase, Option.bind_some, resolvePathSegments_cons]
      exact Option.bind_fun_some _
    unfold renameHandler at hnative
    simp only [hsegments, hvalue, List.getLast?_concat, List.dropLast_concat, hbase,
      deepClone_eq] at hnative
    cases hget : Record.get map oldKey with
    | none =>
      simp only [hget] at hnative
      cases hnative
    | some value =>
      simp only [hget] at hnative
      split_ifs at hnative with hfree
      · cases hnative
      · rw [updateAtPathSegments_eq_replaceAt _ hbase] at hnative
        exact ⟨Bool.eq_false_iff.mpr hfree, (Except.ok.inj hnative).symm,
          Record.has_eq_true.mpr ⟨value, hget⟩⟩
  obtain ⟨hfree, rfl, hthere⟩ := hrenamed
  obtain ⟨_, hpath, hops⟩ := bind_eq_ok_iff.mp hops
  obtain ⟨_, -, hops⟩ := bind_eq_ok_iff.mp hops
  obtain ⟨_, -, hops⟩ := bind_eq_ok_iff.mp hops
  split_ifs at hops with hsame
  · rw [← hsame, hthere] at hfree
    cases hfree
  obtain ⟨map', hmap, hops⟩ := bind_eq_ok_iff.mp hops
  obtain rfl := Except.ok.inj hmap
  obtain ⟨-, hops⟩ := refuse_eq_ok_iff.mp hops
  obtain ⟨-, hops⟩ := refuse_eq_ok_iff.mp hops
  obtain rfl := Except.ok.inj hops
  refine ⟨_, _, ⟨ne_of_assertRecipePath hpath, ⟨init, hprinted⟩, hresolve, rfl, .write, ?_⟩,
    same_assignAll_iff fun key => rfl⟩
  rw [parsePath_of_tryParsePath hprinted]
  exact JsValue.Same.refl _

/-- Steps that do what other steps do run as they do. -/
theorem foldlM_of_steps {S T E E' : Type} {f : S → T → Except E S} {g : S → T → Except E' S}
    (hstep : ∀ s t s', f s t = .ok s' → g s t = .ok s') {items : List T} {s s' : S}
    (h : items.foldlM f s = .ok s') : items.foldlM g s = .ok s' := by
  induction items generalizing s with
  | nil => exact congrArg _ (Except.ok.inj h)
  | cons item items ih =>
    obtain ⟨next, hnext, hrest⟩ := bind_eq_ok_iff.mp h
    exact bind_eq_ok_iff.mpr ⟨next, hstep s item next hnext, ih hrest⟩

/-- Setting children one after the other puts the mapping with all of them in the mapping's place,
as long as the path still matches before the last one. -/
theorem Rewritten.populate {current result : JsValue} {values : Record JsValue}
    (h : Rewritten doc (parsePath path) current map)
    (hnames : ∀ e ∈ values, NamesChild path e.1)
    (hmatches : ∀ name text, (parsePath path).getLast? = some (.match name text) →
      ∀ e ∈ values.dropLast, e.1 = name → matchEquals text e.2 = true)
    (hset : values.foldlM (fun current e => setAtPath current (childPath path e.1) e.2) current =
      .ok result) :
    JsValue.Same result
      (T3x.Yops.replaceAt (.obj (values.foldl (fun m e => Record.setOwn m e.1 e.2) map))
        (parsePath path) doc) := by
  induction values generalizing current map with
  | nil =>
    obtain rfl := Except.ok.inj hset
    exact h.same
  | cons e rest ih =>
    obtain ⟨hname, hnames⟩ := List.forall_mem_cons.mp hnames
    obtain ⟨next, hnext, hset⟩ := bind_eq_ok_iff.mp hset
    obtain rfl := Except.ok.inj ((setChild_eq h.resolves hname).symm.trans hnext)
    cases rest with
    | nil =>
      obtain rfl := Except.ok.inj hset
      rw [h.collapses]
      exact JsValue.Same.refl _
    | cons e' more =>
      refine ih (h.replaceAt fun name text hlast => ?_) hnames (fun name text hlast other hmem => ?_)
        hset
      · by_cases hkey : name = e.1
        · have hequals := hmatches name text hlast e (by simp) hkey.symm
          simp [itemMatchesSeg, hkey, hequals]
        · exact itemMatchesSeg_congr h.resolves hlast (by rw [Record.get_setOwn, if_neg hkey])
      · exact hmatches name text hlast other (by simp [hmem])

/-- A populate and its recipe write the same mapping exactly if the recipe defines the values. -/
theorem populate_replacement (hparses : Parses fields "path")
    (hnative : populateHandler doc fields 0 = .ok native)
    (hbase : resolvePath doc (textField fields "path") = some (.obj map))
    (hops : compileYOpsMappingPopulate (textField fields "path") (.obj map)
      (entriesField fields "values") = .ok ops)
    (hnames : ∀ e ∈ entriesField fields "values", NamesChild (textField fields "path") e.1)
    (hmatches : ∀ name text,
      (parsePath (textField fields "path")).getLast? = some (.match name text) →
        ∀ e ∈ (entriesField fields "values").dropLast, e.1 = name → matchEquals text e.2 = true) :
    ∃ target new, Replacement doc native ops (textField fields "path") (.obj map) target new ∧
      (JsValue.Same target new ↔ Assigns map (entriesField fields "values")) := by
  obtain ⟨_, hpath, hops⟩ := bind_eq_ok_iff.mp hops
  obtain ⟨map', hmap, hops⟩ := bind_eq_ok_iff.mp hops
  obtain rfl := Except.ok.inj hmap
  obtain ⟨_, -, hops⟩ := bind_eq_ok_iff.mp hops
  obtain rfl := Except.ok.inj hops
  obtain ⟨map', hmap, hset⟩ := bind_eq_ok_iff.mp hnative
  have hmap := hbase.symm.trans (mappingAt_eq_ok_iff.mp hmap)
  obtain rfl := JsValue.obj.inj (Option.some.inj hmap)
  have hset' : (entriesField fields "values").foldlM
      (fun current e => setAtPath current (childPath (textField fields "path") e.1) e.2) doc =
        .ok native := by
    refine foldlM_of_steps (fun current e next hnext => ?_) hset
    cases hchild : setAtPath current (childPath (textField fields "path") e.1) e.2 with
    | ok next' =>
      simp only [hchild] at hnext
      exact congrArg _ (Except.ok.inj hnext)
    | error message =>
      simp only [hchild] at hnext
      cases hnext
  exact ⟨_, _, ⟨ne_of_assertRecipePath hpath, hparses (ne_of_assertRecipePath hpath), hbase, rfl,
    replaces_mappingPathReplacement _ _ _, (Rewritten.refl hbase).populate hnames hmatches hset'⟩,
    same_assignAll_iff fun key => rfl⟩

/-! ## Groups of members -/

/-- The texts of the moved keys and of the groups name the children, and the path does not match
by a moved key. -/
structure NamesGroups (path : JsString) (groups : Record (List JsString)) : Prop where
  /-- Every text names its child. -/
  names : ∀ key, key ∈ groups.map Prod.fst ∨ key ∈ groups.flatMap Prod.snd → NamesChild path key
  /-- The path goes on matching. -/
  spares : SparesMatch (parsePath path) (groups.flatMap Prod.snd)

/-- The mapping that a recipe puts the groups in. -/
def groupedTarget (map : Record JsValue) (groups : Record (List JsString)) : JsValue :=
  .obj (assignAll [] (membersBut map (groups.flatMap Prod.snd) ++
    Record.mapValues (fun keys => .obj (assignAll [] (membersAt map keys))) groups))

/-- The assignments of the groups define what they assign: the members of each group, and the
rest with the groups. -/
structure AssignsGroups (map : Record JsValue) (groups : Record (List JsString)) : Prop where
  /-- The rest and the groups. -/
  outer : Assigns [] (membersBut map (groups.flatMap Prod.snd) ++
    Record.mapValues (fun keys => JsValue.obj (gather map keys)) groups)
  /-- The members of a group. -/
  inner : ∀ e ∈ groups, Assigns [] (membersAt map e.2)

/-- The groups are what the operation makes exactly if the assignments define them. -/
theorem same_groupedTarget_iff {groups : Record (List JsString)} {target : Record JsValue}
    (hnames : (groups.map Prod.fst).Nodup)
    (hget : ∀ key, Record.get target key =
      ((Record.get groups key).map fun keys => JsValue.obj (gather map keys)).or
        (if key ∈ groups.flatMap Prod.snd then none else Record.get map key)) :
    JsValue.Same (groupedTarget map groups) (.obj target) ↔ AssignsGroups map groups := by
  have hinner : ∀ keys, JsValue.Same (.obj (assignAll [] (membersAt map keys)))
      (.obj (gather map keys)) ↔ Assigns [] (membersAt map keys) := fun keys =>
    same_assignAll_iff fun key => by rw [foldl_membersAt]
  have hall : ∀ key, Record.get target key =
      Record.get ((membersBut map (groups.flatMap Prod.snd) ++
        Record.mapValues (fun keys => JsValue.obj (gather map keys)) groups).foldl
          (fun m e => Record.setOwn m e.1 e.2) []) key := fun key => by
    rw [get_foldl_groups _ hnames, get_foldl_membersBut, hget]
  rw [groupedTarget, same_assignAll_groups_iff hnames hall]
  simp only [hinner]
  exact ⟨fun h => ⟨h.1, h.2⟩, fun h => ⟨h.outer, h.inner⟩⟩

/-- Where the texts name the children, a regrouping puts what it makes in the mapping's place. -/
theorem RegroupSteps.replacement {groups : Record (List JsString)} {target : Record JsValue}
    (h : RegroupSteps doc path groups native target keys) (hnames : NamesGroups path groups) :
    ∃ new, JsValue.Same native (replaceAt (.obj new) (parsePath path) doc) ∧
      ∀ key, Record.get new key =
        ((Record.get groups key).map fun keys => JsValue.obj (gather target keys)).or
          (if key ∈ groups.flatMap Prod.snd then none else Record.get target key) := by
  obtain ⟨new, hrewritten, hget⟩ := h.rewritten hnames.names hnames.spares
  exact ⟨new, hrewritten.same, hget⟩

/-- A nest and its recipe write the same mapping exactly if there are keys to nest and the recipe
defines what it assigns. -/
theorem nest_replacement (hparses : Parses fields "path")
    (hnative : nestHandler doc fields 0 = .ok native)
    (hbase : resolvePath doc (textField fields "path") = some (.obj map))
    (hops : compileYOpsMappingNest (textField fields "path") (.obj map) (keysField fields "keys")
      (textField fields "under") = .ok ops)
    (hnames : NamesGroups (textField fields "path")
      [(textField fields "under", keysField fields "keys")]) :
    ∃ target new, Replacement doc native ops (textField fields "path") (.obj map) target new ∧
      (JsValue.Same target new ↔ keysField fields "keys" ≠ [] ∧
        AssignsGroups map [(textField fields "under", keysField fields "keys")]) := by
  obtain ⟨_, hpath, hops⟩ := bind_eq_ok_iff.mp hops
  obtain ⟨_, -, hops⟩ := bind_eq_ok_iff.mp hops
  obtain ⟨map', hmap, hops⟩ := bind_eq_ok_iff.mp hops
  obtain rfl := Except.ok.inj hmap
  obtain ⟨_, -, hops⟩ := bind_eq_ok_iff.mp hops
  obtain ⟨map', keys, hsteps⟩ := nestHandler_eq_ok hnative
  have hmap := hbase.symm.trans hsteps.resolves
  obtain rfl := JsValue.obj.inj (Option.some.inj hmap)
  obtain ⟨new, hsame, hget⟩ := hsteps.replacement hnames
  have hne := ne_of_assertRecipePath hpath
  by_cases hempty : (keysField fields "keys").length = 0
  · -- the operation adds an empty mapping, and the recipe nothing
    rw [if_pos hempty] at hops
    obtain rfl := Except.ok.inj hops
    have hnil := List.length_eq_zero_iff.mp hempty
    refine ⟨.obj map, _, ⟨hne, hparses hne, hbase, rfl, .nothing (JsValue.Same.refl _), hsame⟩,
      iff_of_false (fun hadded => ?_) fun h => h.1 hnil⟩
    have hunder := JsValue.denote_obj_eq_iff.mp hadded (textField fields "under")
    have hfree : Record.get map (textField fields "under") = none := by
      by_contra hthere
      have hhas := Record.has_eq_true.mpr (Option.ne_none_iff_exists'.mp hthere)
      have hmem := hsteps.free _ (List.mem_singleton_self _) hhas
      simp [hnil] at hmem
    rw [hget, hfree] at hunder
    simp [Record.get] at hunder
  · rw [if_neg hempty] at hops
    obtain ⟨-, hops⟩ := refuse_eq_ok_iff.mp hops
    obtain rfl := Except.ok.inj hops
    have hkeys : keysField fields "keys" ≠ [] := fun hnil => hempty (by rw [hnil]; rfl)
    have htarget : groupedTarget map [(textField fields "under", keysField fields "keys")] =
        .obj (assignAll [] (membersBut map (keysField fields "keys") ++
          [(textField fields "under",
            .obj (assignAll [] (membersAt map (keysField fields "keys"))))])) := by
      simp [groupedTarget, Record.mapValues]
    refine ⟨groupedTarget map [(textField fields "under", keysField fields "keys")], _,
      ⟨hne, hparses hne, hbase, rfl, ?_, hsame⟩, ?_⟩
    · rw [htarget]
      exact replaces_mappingPathReplacement _ _ _
    · rw [same_groupedTarget_iff hsteps.names hget]
      exact (and_iff_right hkeys).symm

/-- A split and its recipe write the same mapping exactly if the recipe defines what it
assigns. -/
theorem split_replacement (hparses : Parses fields "path")
    (hnative : splitHandler doc fields 0 = .ok native)
    (hbase : resolvePath doc (textField fields "path") = some (.obj map))
    (hops : compileYOpsMappingSplit (textField fields "path") (.obj map)
      (Record.mapValues (fun keys => keys.items.map JsValue.text) (entriesField fields "into")) =
        .ok ops)
    (hnames : NamesGroups (textField fields "path")
      (Record.mapValues (fun keys => keys.items.map JsValue.text) (entriesField fields "into"))) :
    ∃ target new, Replacement doc native ops (textField fields "path") (.obj map) target new ∧
      (JsValue.Same target new ↔ AssignsGroups map
        (Record.mapValues (fun keys => keys.items.map JsValue.text)
          (entriesField fields "into"))) := by
  obtain ⟨_, hpath, hops⟩ := bind_eq_ok_iff.mp hops
  obtain ⟨map', hmap, hops⟩ := bind_eq_ok_iff.mp hops
  obtain rfl := Except.ok.inj hmap
  obtain ⟨_, -, hops⟩ := bind_eq_ok_iff.mp hops
  obtain ⟨_, -, hops⟩ := bind_eq_ok_iff.mp hops
  obtain rfl := Except.ok.inj hops
  obtain ⟨map', keys, hsteps⟩ := splitHandler_eq_ok hnative
  have hmap := hbase.symm.trans hsteps.resolves
  obtain rfl := JsValue.obj.inj (Option.some.inj hmap)
  obtain ⟨new, hsame, hget⟩ := hsteps.replacement hnames
  have hne := ne_of_assertRecipePath hpath
  exact ⟨groupedTarget map _, _, ⟨hne, hparses hne, hbase, rfl,
    replaces_mappingPathReplacement _ _ _, hsame⟩, same_groupedTarget_iff hsteps.names hget⟩

/-! ## Folding and merging -/

/-- A fold and its recipe write the same mapping exactly if the recipe defines what it assigns. -/
theorem fold_replacement {init : List PathSegment} {wrapper : JsString}
    (hnative : foldHandler doc fields 0 = .ok native)
    (hsegments : parsePath (textField fields "path") = init ++ [.key wrapper])
    (hprinted : tryParsePath (formatPathSegments init) = .ok init)
    (hbase : resolvePathSegments doc init = some (.obj map))
    (hops : compileYOpsMappingFold (textField fields "path") (formatPathSegments init)
      (.obj map) = .ok ops) :
    ∃ target new folded, Record.get map wrapper = some (.obj folded) ∧
      Replacement doc native ops (formatPathSegments init) (.obj map) target new ∧
      (JsValue.Same target new ↔
        Assigns [] (membersBut map [wrapper] ++ Record.entries folded)) := by
  have hresolve : resolvePath doc (formatPathSegments init) = some (.obj map) := by
    rw [resolvePath, parsePath_of_tryParsePath hprinted, hbase]
  obtain ⟨init', wrapper', map', folded, childKey, childValue, hsegments', hbase', hwrapper,
    hentries, -, rfl⟩ := foldHandler_eq_ok hnative
  obtain ⟨rfl, hlast⟩ := List.append_inj' (hsegments.symm.trans hsegments') rfl
  obtain rfl := PathSegment.key.inj (List.head_eq_of_cons_eq hlast)
  obtain rfl := JsValue.obj.inj (Option.some.inj (hbase.symm.trans hbase'))
  obtain ⟨_, -, hops⟩ := bind_eq_ok_iff.mp hops
  obtain ⟨_, hpath, hops⟩ := bind_eq_ok_iff.mp hops
  obtain ⟨map', hmap, hops⟩ := bind_eq_ok_iff.mp hops
  obtain rfl := Except.ok.inj hmap
  rw [hsegments, List.getLast?_concat] at hops
  simp only [hwrapper] at hops
  obtain ⟨folded', hfolded, hops⟩ := bind_eq_ok_iff.mp hops
  obtain rfl := Except.ok.inj hfolded
  simp only [hentries] at hops
  obtain rfl := Except.ok.inj hops
  refine ⟨_, .obj (Record.setOwn (Record.erase map wrapper) childKey childValue), folded, hwrapper,
    ⟨ne_of_assertRecipePath hpath, ⟨init, hprinted⟩, hresolve, rfl,
      replaces_mappingPathReplacement _ _ _, ?_⟩, ?_⟩
  · rw [parsePath_of_tryParsePath hprinted]
    exact JsValue.Same.refl _
  · rw [hentries]
    refine same_assignAll_iff fun key => ?_
    rw [get_foldl_concat, get_foldl_membersBut, Record.get_setOwn, Record.get_erase]
    simp only [List.mem_singleton]

/-- The members of the merged mappings, one mapping after the other. -/
def mergedEntries (map : Record JsValue) (keys : List JsString) : Record JsValue :=
  keys.flatMap fun key =>
    match Record.get map key with
    | some (.obj part) => Record.entries part
    | _ => []

/-- The parts of a merge are the members of the merged mappings. -/
theorem flatten_parts {parts : List (Record JsValue)} (h : List.Forall₂ (IsPart map) keys parts) :
    parts.flatten = mergedEntries map keys := by
  induction h with
  | nil => rfl
  | cons hpart _ ih =>
    obtain ⟨members, hmembers, rfl⟩ := hpart
    rw [List.flatten_cons, ih, mergedEntries, mergedEntries, List.flatMap_cons, hmembers]

/-- A merge and its recipe write the same mapping exactly if the recipe defines what it
assigns. -/
theorem merge_replacement (hparses : Parses fields "path")
    (hnative : mergeHandler doc fields 0 = .ok native)
    (hbase : resolvePath doc (textField fields "path") = some (.obj map))
    (hops : compileYOpsMappingMerge (textField fields "path") (.obj map) (keysField fields "keys")
      (textField fields "into") = .ok ops)
    (hkeys : ∀ key ∈ keysField fields "keys", NamesChild (textField fields "path") key)
    (hinto : NamesChild (textField fields "path") (textField fields "into")) :
    ∃ target new, Replacement doc native ops (textField fields "path") (.obj map) target new ∧
      (JsValue.Same target new ↔
        Assigns [] (membersBut map (keysField fields "keys") ++ [(textField fields "into",
          .obj (Record.fromEntries (mergedEntries map (keysField fields "keys"))))]) ∧
        Assigns [] (mergedEntries map (keysField fields "keys"))) := by
  obtain ⟨_, hpath, hops⟩ := bind_eq_ok_iff.mp hops
  obtain ⟨_, -, hops⟩ := bind_eq_ok_iff.mp hops
  obtain ⟨map', hmap, hops⟩ := bind_eq_ok_iff.mp hops
  obtain rfl := Except.ok.inj hmap
  obtain ⟨_, -, hops⟩ := bind_eq_ok_iff.mp hops
  obtain ⟨parts, hparts, hops⟩ := bind_eq_ok_iff.mp hops
  obtain rfl := Except.ok.inj hops
  have hparts : List.Forall₂ (IsPart map) (keysField fields "keys") parts := by
    refine (mapM_eq_ok_iff.mp hparts).imp fun key part hpart => ?_
    obtain ⟨members, hmembers, rfl⟩ := map_eq_ok_iff.mp hpart
    have hobj := assertMappingValue_eq_ok hmembers
    cases hget : Record.get map key with
    | none =>
      rw [hget] at hobj
      cases hobj
    | some member =>
      rw [hget] at hobj
      exact ⟨members, hobj ▸ hget, rfl⟩
  obtain ⟨map', parts', hmap, hparts', hset⟩ := mergeHandler_eq_ok hnative
  obtain rfl := JsValue.obj.inj (Option.some.inj (hbase.symm.trans hmap))
  obtain ⟨rest, hrest, hget⟩ := (Rewritten.refl hbase).deleteChildren hkeys
    (sparesMatch_of_parts hbase hparts)
  rw [setChild_eq hrest.resolves hinto] at hset
  obtain rfl := Except.ok.inj hset
  have hne := ne_of_assertRecipePath hpath
  rw [flatten_parts hparts]
  have hsame : JsValue.Same
      (replaceAt (.obj (Record.setOwn rest (textField fields "into")
        (.obj (Record.fromEntries parts'.flatten)))) (parsePath (textField fields "path"))
          (deleteChildren doc (textField fields "path") (keysField fields "keys")))
      (replaceAt (.obj (Record.setOwn rest (textField fields "into")
        (.obj (Record.fromEntries (mergedEntries map (keysField fields "keys"))))))
          (parsePath (textField fields "path")) doc) := by
    rw [hrest.collapses, flatten_parts hparts']
    exact JsValue.Same.refl _
  refine ⟨_, _, ⟨hne, hparses hne, hbase, rfl, replaces_mappingPathReplacement _ _ _, hsame⟩, ?_⟩
  have hall : ∀ key, Record.get (Record.setOwn rest (textField fields "into")
      (.obj (Record.fromEntries (mergedEntries map (keysField fields "keys"))))) key =
      Record.get ((membersBut map (keysField fields "keys") ++ Record.mapValues
        (fun _ : Unit => JsValue.obj (Record.fromEntries (mergedEntries map
          (keysField fields "keys")))) [(textField fields "into", ())]).foldl
            (fun m e => Record.setOwn m e.1 e.2) []) key := fun key => by
    rw [Record.mapValues, List.map_singleton, get_foldl_concat, get_foldl_membersBut,
      Record.get_setOwn, hget]
  have houter := same_assignAll_groups_iff
    (f := fun _ => .obj (assignAll [] (mergedEntries map (keysField fields "keys")))) (by simp) hall
  refine houter.trans (and_congr_right fun _ => ?_)
  rw [List.forall_mem_singleton]
  exact same_assignAll_iff fun key => rfl

end T3x.Yops
