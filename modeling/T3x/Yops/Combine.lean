import T3x.Yops.Regroup

/-!
# Merging and folding

A merge puts one mapping in the place of several, the later of two members of one
name counting. A fold puts the one member of a mapping in the mapping's place,
where it replaces a sibling of its name. Every other sibling keeps its value.
-/

namespace T3x.Yops

open Js

variable {doc result : JsValue} {fields target : Record JsValue} {keys : List JsString}
  {index : ℕ} {segments : List PathSegment}

/-! ## Merging -/

/-- The member of a name in the last of the merged mappings that has one. -/
def mergedMember (target : Record JsValue) (keys : List JsString) (child : JsString) :
    Option JsValue :=
  keys.reverse.findSome? fun key =>
    match Record.get target key with
    | some (.obj part) => Record.get part child
    | _ => none

/-- The part that a key adds to the merged mapping: the members of the mapping under it. -/
def IsPart (target : Record JsValue) (key : JsString) (part : Record JsValue) : Prop :=
  ∃ members, Record.get target key = some (.obj members) ∧ part = Record.entries members

/-- The members of the parts one after the other, the last one of a name counting. -/
theorem get_parts {parts : List (Record JsValue)} (h : List.Forall₂ (IsPart target) keys parts)
    (child : JsString) :
    Record.get parts.flatten.reverse child = mergedMember target keys child := by
  induction h with
  | nil => rfl
  | @cons key part keys parts hpart _ ih =>
    obtain ⟨members, hmembers, rfl⟩ := hpart
    have hnodup : ((Record.entries members).map Prod.fst).Nodup := Record.keys_nodup members
    have hget : Record.get (Record.entries members).reverse child = Record.get members child := by
      rw [← Record.get_entries members]
      exact Record.get_perm hnodup (List.reverse_perm _).symm child
    rw [List.flatten_cons, List.reverse_append, Record.get_append, ih, hget]
    simp [mergedMember, hmembers]

/-- Under each of the keys is a mapping. -/
theorem exists_of_parts {parts : List (Record JsValue)}
    (h : List.Forall₂ (IsPart target) keys parts) {key : JsString} (hmem : key ∈ keys) :
    ∃ members, Record.get target key = some (.obj members) := by
  induction h with
  | nil => cases hmem
  | cons hpart _ ih =>
    rcases List.mem_cons.mp hmem with rfl | hmem
    · obtain ⟨members, hmembers, -⟩ := hpart
      exact ⟨members, hmembers⟩
    · exact ih hmem

/-- The last segment of the path matches by a scalar, and no merged mapping is one. -/
theorem sparesMatch_of_parts {parts : List (Record JsValue)}
    (htarget : resolvePathSegments doc segments = some (.obj target))
    (h : List.Forall₂ (IsPart target) keys parts) : SparesMatch segments keys := by
  intro name text hlast hmem
  obtain ⟨map, member, hmap, hmember, hscalar⟩ :=
    itemMatchesSeg_eq_true (itemMatchesSeg_of_resolve htarget hlast)
  obtain rfl := JsValue.obj.inj hmap
  obtain ⟨members, hmembers⟩ := exists_of_parts h hmem
  rw [hmembers] at hmember
  rw [← Option.some.inj hmember] at hscalar
  cases hscalar

/-- What a merge that succeeds has checked and done. -/
theorem mergeHandler_eq_ok (h : mergeHandler doc fields index = .ok result) :
    ∃ target parts, resolvePath doc (textField fields "path") = some (.obj target) ∧
      List.Forall₂ (IsPart target) (keysField fields "keys") parts ∧
      setAtPath (deleteChildren doc (textField fields "path") (keysField fields "keys"))
        (childPath (textField fields "path") (textField fields "into"))
        (.obj (Record.fromEntries parts.flatten)) = .ok result := by
  obtain ⟨target, htarget, h⟩ := bind_eq_ok_iff.mp h
  obtain ⟨_, -, h⟩ := bind_eq_ok_iff.mp h
  obtain ⟨parts, hparts, h⟩ := bind_eq_ok_iff.mp h
  rw [deepClone_eq] at h
  refine ⟨target, parts, mappingAt_eq_ok_iff.mp htarget, ?_, throwing_eq_ok_iff.mp h⟩
  refine (mapM_eq_ok_iff.mp hparts).imp fun key part hpart => ?_
  cases hmember : Record.get target key with
  | none =>
    simp only [hmember] at hpart
    cases hpart
  | some member =>
    cases member with
    | obj members =>
      simp only [hmember] at hpart
      exact ⟨members, hmember, (Except.ok.inj hpart).symm⟩
    | _ =>
      simp only [hmember] at hpart
      cases hpart

/-- What a merge leaves of a mapping: the merged mapping with the last member of every name, and
every sibling that is none of the keys. -/
structure IsMerged (target map : Record JsValue) (keys : List JsString) (into : JsString) :
    Prop where
  /-- Every member of the merged mappings is in the new one, unless a later key has one of its
  name. -/
  merged : ∃ members, Record.get map into = some (.obj members) ∧
    ∀ child, Record.get members child = mergedMember target keys child
  /-- The merged mappings are gone, and the other siblings are as they were. -/
  rest : ∀ key, key ≠ into → Record.get map key =
    if key ∈ keys then none else Record.get target key

/-- A merge into one of its keys or a free name keeps every other sibling. -/
theorem isMerged_of_mergeHandler (h : mergeHandler doc fields index = .ok result)
    (hkeys : ∀ key ∈ keysField fields "keys", NamesChild (textField fields "path") key)
    (hname : NamesChild (textField fields "path") (textField fields "into"))
    (hfree : ∀ target, resolvePath doc (textField fields "path") = some (.obj target) →
      Record.has target (textField fields "into") = true →
        textField fields "into" ∈ keysField fields "keys") :
    ∃ target map, resolvePath doc (textField fields "path") = some (.obj target) ∧
      IsSetAt doc (locate (parsePath (textField fields "path")) doc) (.obj map) result ∧
      IsMerged target map (keysField fields "keys") (textField fields "into") := by
  obtain ⟨target, parts, htarget, hparts, hset⟩ := mergeHandler_eq_ok h
  have hspares := sparesMatch_of_parts htarget hparts
  have hspares' : SparesMatch (parsePath (textField fields "path"))
      ([(textField fields "into", JsValue.obj (Record.fromEntries parts.flatten))].map
        Prod.fst) := by
    intro name text hlast hmem
    obtain ⟨map, member, hmap, hmember, -⟩ :=
      itemMatchesSeg_eq_true (itemMatchesSeg_of_resolve htarget hlast)
    obtain rfl := JsValue.obj.inj hmap
    obtain rfl := List.mem_singleton.mp hmem
    exact hspares _ text hlast
      (hfree target htarget (Record.has_eq_true.mpr ⟨member, hmember⟩))
  have hnames : ∀ key ∈ [(textField fields "into",
      JsValue.obj (Record.fromEntries parts.flatten))].map Prod.fst,
        NamesChild (textField fields "path") key := by
    intro key hkey
    obtain rfl := List.mem_singleton.mp hkey
    exact hname
  obtain ⟨map, hrewritten, hget⟩ := rewritten_of_regroup htarget hkeys hnames hspares hspares'
    (bind_eq_ok_iff.mpr ⟨result, hset, rfl⟩)
  refine ⟨target, map, htarget, hrewritten.isSetAt, ⟨Record.fromEntries parts.flatten, ?_, fun child => ?_⟩,
    fun key hkey => ?_⟩
  · rw [hget]
    simp [Record.get]
  · rw [Record.fromEntries, Record.get_foldl_setOwn, get_parts hparts]
    simp [Record.get]
  · rw [hget]
    simp [Record.get, hkey.symm]

/-! ## Folding -/

/-- What a fold leaves of the mapping that holds the folded one: the promoted member, and every
sibling that has another name. -/
structure IsFolded (parent map : Record JsValue) (wrapper childKey : JsString)
    (childValue : JsValue) : Prop where
  /-- The wrapper had one member. -/
  folded : ∃ target, Record.get parent wrapper = some (.obj target) ∧
    Record.entries target = [(childKey, childValue)]
  /-- The member has its old value in the wrapper's mapping. -/
  promoted : Record.get map childKey = some childValue
  /-- The wrapper is gone, and the other siblings are as they were. -/
  rest : ∀ key, key ≠ childKey → Record.get map key =
    if key = wrapper then none else Record.get parent key

/-- A member that is deleted where its path ends, and another one set beside it: the mapping at
the parent's path has lost the one and has the other. -/
theorem isSetAt_of_promote {doc deleted : JsValue} {init : List PathSegment} {last : PathSegment}
    {childKey : JsString} {childValue : JsValue}
    (htarget : resolvePathSegments doc (init ++ [last]) = some (.obj target))
    (hdelete : deleteRecursive (init ++ [last]) doc = some deleted)
    (hset : setRecursive childValue (init ++ [.key childKey]) deleted = .ok result) :
    ∃ wrapper parent, last = .key wrapper ∧ resolvePathSegments doc init = some (.obj parent) ∧
      Record.get parent wrapper = some (.obj target) ∧
      IsSetAt doc (locate init doc)
        (.obj (Record.setOwn (Record.erase parent wrapper) childKey childValue)) result ∧
      result =
        replaceAt (.obj (Record.setOwn (Record.erase parent wrapper) childKey childValue)) init
          doc := by
  rw [resolvePathSegments_append] at htarget
  obtain ⟨parent, hparent, hlast⟩ := Option.bind_eq_some_iff.mp htarget
  rw [resolvePathSegments_cons] at hlast
  obtain ⟨part, hselect, hpart⟩ := Option.bind_eq_some_iff.mp hlast
  obtain rfl := Option.some.inj hpart
  obtain ⟨new, hnew, rfl⟩ := (deleteRecursive_append_eq_some_iff hparent (List.cons_ne_nil _ _)).mp
    hdelete
  obtain ⟨_, -, hnew⟩ := Option.bind_eq_some_iff.mp hnew
  obtain rfl := Option.some.inj hnew
  cases parent with
  | obj parent =>
    cases last with
    | key wrapper =>
      have hrewritten : Rewritten doc init
          (replaceAt (.obj (Record.erase parent wrapper)) init doc)
          (Record.erase parent wrapper) := by
        refine (Rewritten.refl hparent).replaceAt fun name text hlast => ?_
        obtain ⟨map, member, hmap, hmember, hscalar⟩ :=
          itemMatchesSeg_eq_true (itemMatchesSeg_of_resolve hparent hlast)
        obtain rfl := JsValue.obj.inj hmap
        have hne : name ≠ wrapper := by
          rintro rfl
          obtain rfl := Option.some.inj (hselect.symm.trans hmember)
          cases hscalar
        exact itemMatchesSeg_congr hparent hlast (by rw [Record.get_erase, if_neg hne])
      obtain ⟨final, hfinal, rfl⟩ := (setRecursive_append_eq_ok_iff hrewritten.resolves rfl).mp hset
      have hat : IsSetAt _ _ final _ := isSetAt_replaceAt hrewritten.resolves rfl
      rw [hrewritten.located] at hat
      obtain rfl := Except.ok.inj hfinal
      rw [← resolvePathSegments_locate] at hparent
      exact ⟨wrapper, parent, rfl, by rw [← resolvePathSegments_locate, hparent], hselect,
        .trans hparent hrewritten.isSetAt hat, hrewritten.collapses _⟩
    | _ => cases hselect
  | arr items =>
    have hdeleted : resolvePathSegments (replaceAt (last.remove (.arr items)) init doc) init =
        some (last.remove (.arr items)) :=
      resolvePathSegments_replaceAt hparent (fitsAt_arr hparent)
    obtain ⟨final, hfinal, -⟩ := (setRecursive_append_eq_ok_iff hdeleted rfl).mp hset
    cases hfinal
  | _ => cases hselect

/-- What a fold that succeeds has found and done. -/
theorem foldHandler_eq_ok (h : foldHandler doc fields index = .ok result) :
    ∃ init wrapper parent target childKey childValue,
      parsePath (textField fields "path") = init ++ [.key wrapper] ∧
      resolvePathSegments doc init = some (.obj parent) ∧
      Record.get parent wrapper = some (.obj target) ∧
      Record.entries target = [(childKey, childValue)] ∧
      IsSetAt doc (locate init doc)
        (.obj (Record.setOwn (Record.erase parent wrapper) childKey childValue)) result ∧
      result =
        replaceAt (.obj (Record.setOwn (Record.erase parent wrapper) childKey childValue)) init
          doc := by
  obtain ⟨target, htarget, h⟩ := bind_eq_ok_iff.mp h
  have htarget := mappingAt_eq_ok_iff.mp htarget
  rw [resolvePath] at htarget
  simp only [deepClone_eq] at h
  generalize parsePath (textField fields "path") = segments at htarget h ⊢
  cases hentries : Record.entries target with
  | nil =>
    simp only [hentries] at h
    cases h
  | cons e more =>
    obtain ⟨childKey, childValue⟩ := e
    cases more with
    | cons e' more =>
      simp only [hentries] at h
      cases h
    | nil =>
      simp only [hentries] at h
      cases hdelete : deleteAtPathSegments doc segments with
      | none =>
        simp only [hdelete] at h
        cases h
      | some deleted =>
        simp only [hdelete] at h
        have hset := throwing_eq_ok_iff.mp h
        rw [setAtPathSegments, deepClone_eq, deepClone_eq] at hset
        obtain ⟨hne, -, hdelete⟩ := deleteAtPathSegments_eq_some_iff.mp hdelete
        rcases List.eq_nil_or_concat' segments with rfl | ⟨init, last, rfl⟩
        · exact absurd rfl hne
        rw [List.dropLast_concat] at hset
        obtain ⟨wrapper, parent, rfl, hparent, hwrapper, hat, heq⟩ :=
          isSetAt_of_promote htarget hdelete hset
        exact ⟨init, wrapper, parent, target, childKey, childValue, rfl, hparent, hwrapper,
          hentries, hat, heq⟩

/-- A fold promotes the one member of a mapping and keeps every sibling of another name. -/
theorem isFolded_of_foldHandler (h : foldHandler doc fields index = .ok result) :
    ∃ init wrapper parent map childKey childValue,
      parsePath (textField fields "path") = init ++ [.key wrapper] ∧
      resolvePathSegments doc init = some (.obj parent) ∧
      IsSetAt doc (locate init doc) (.obj map) result ∧
      IsFolded parent map wrapper childKey childValue := by
  obtain ⟨init, wrapper, parent, target, childKey, childValue, hpath, hparent, hwrapper, hentries,
    hat, -⟩ := foldHandler_eq_ok h
  refine ⟨init, wrapper, parent, _, childKey, childValue, hpath, hparent, hat,
    ⟨target, hwrapper, hentries⟩, by simp, fun key hkey => ?_⟩
  rw [Record.get_setOwn, if_neg hkey, Record.get_erase]

/-! ## Bystanders -/

/-- A merge that is applied, into one of its keys or a free name and with texts that name the
children, keeps every sibling but its keys and every member of the merged mappings that no later
key replaces. A fold that is applied keeps every sibling but one of the promoted member's name,
and the member. Neither changes anything outside the mapping. -/
theorem merge_and_fold_keep_bystanders (issueMessage : JsValue → JsString)
    (op fields : Record JsValue) (doc result : JsValue) (index : ℕ)
    (happly : (applyOp issueMessage (.obj op) doc index).1 = .ok result) :
    (IsCall op "merge" fields →
      (∀ key ∈ keysField fields "keys", NamesChild (textField fields "path") key) →
      NamesChild (textField fields "path") (textField fields "into") →
      (∀ target, resolvePath doc (textField fields "path") = some (.obj target) →
        Record.has target (textField fields "into") = true →
          textField fields "into" ∈ keysField fields "keys") →
      ∃ target map, resolvePath doc (textField fields "path") = some (.obj target) ∧
        IsSetAt doc (locate (parsePath (textField fields "path")) doc) (.obj map) result ∧
        IsMerged target map (keysField fields "keys") (textField fields "into")) ∧
    (IsCall op "fold" fields → ∃ init wrapper parent map childKey childValue,
      parsePath (textField fields "path") = init ++ [.key wrapper] ∧
      resolvePathSegments doc init = some (.obj parent) ∧
      IsSetAt doc (locate init doc) (.obj map) result ∧
      IsFolded parent map wrapper childKey childValue) := by
  constructor
  · intro hcall hkeys hname hfree
    obtain ⟨handler, hhandler, hresult⟩ := handler_of_applyOp issueMessage hcall happly
    obtain rfl := Option.some.inj hhandler
    exact isMerged_of_mergeHandler hresult hkeys hname hfree
  · intro hcall
    obtain ⟨handler, hhandler, hresult⟩ := handler_of_applyOp issueMessage hcall happly
    obtain rfl := Option.some.inj hhandler
    exact isFolded_of_foldHandler hresult

/-- Merging `a` and `b` into `c`. -/
theorem merge_keeps_bystanders :
    ∃ target map, resolvePath (.obj [(js "a", .obj [(js "x", .null)]), (js "b", .obj []),
        (js "d", .null)]) (js "") = some (.obj target) ∧
      IsSetAt (.obj [(js "a", .obj [(js "x", .null)]), (js "b", .obj []), (js "d", .null)])
        (locate (parsePath (js "")) (.obj [(js "a", .obj [(js "x", .null)]), (js "b", .obj []),
          (js "d", .null)])) (.obj map)
        (.obj [(js "d", .null), (js "c", .obj [(js "x", .null)])]) ∧
      IsMerged target map [js "a", js "b"] (js "c") := by
  refine (@merge_and_fold_keep_bystanders (fun _ => js "Invalid input")
    [(js "merge", .obj [(js "path", .str (js "")), (js "keys", .arr [.str (js "a"), .str (js "b")]),
      (js "into", .str (js "c"))])]
    [(js "path", .str (js "")), (js "keys", .arr [.str (js "a"), .str (js "b")]),
      (js "into", .str (js "c"))] _ _ 0 (by decide)).1 ⟨by decide, by decide⟩ ?_ rfl ?_
  · intro key hkey
    rcases List.mem_cons.mp hkey with rfl | hkey
    · rfl
    · obtain rfl := List.mem_singleton.mp hkey
      rfl
  · intro target htarget hhas
    obtain rfl := JsValue.obj.inj (Option.some.inj htarget)
    cases hhas

/-- A fold overwrites the sibling of the promoted member's name. -/
theorem fold_overwrites_sibling :
    applyYOps (fun _ => js "Invalid input")
      (.obj [(js "w", .obj [(js "s", .bool true)]), (js "s", .bool false)])
      [.obj [(js "fold", .obj [(js "path", .str (js "w"))])]] =
      { ok := true
        doc := .obj [(js "s", .bool true)]
        applied := 1
        error := none
        warnings := [] } := by
  decide

end T3x.Yops
