import T3x.Yops.Engine
import T3x.Yops.InPlace

/-!
# Regrouping the members of a mapping

Nesting, splitting and merging read members of a mapping, delete them one after
the other and put new members in their place. Each child is named by a text, the
path of the mapping with the key behind a slash, which is parsed anew; the
operation does what it should where this text names the child.
-/

namespace T3x.Yops

open Js

variable {doc current value result : JsValue} {segments : List PathSegment}
  {path key : JsString} {keys : List JsString} {target map : Record JsValue}
  {parts : Record JsValue}

/-! ## The children of a mapping -/

/-- The text of the child names the child. -/
def NamesChild (path key : JsString) : Prop :=
  parsePath (childPath path key) = parsePath path ++ [.key key]

/-- The last segment of the path does not match by one of the keys. -/
def SparesMatch (segments : List PathSegment) (keys : List JsString) : Prop :=
  ∀ name text, segments.getLast? = some (.match name text) → name ∉ keys

/-- What is at a location can be set there again. -/
theorem IsSetAt.self {loc : List PathSegment} (h : resolvePathSegments doc loc = some value) :
    IsSetAt doc loc value doc := by
  refine ⟨h, fun _ _ _ _ => rfl, fun above habove _ hnone => ?_⟩
  obtain ⟨below, rfl⟩ := habove
  rw [resolvePathSegments_append, hnone] at h
  cases h

/-- Of two values set where something is the second counts. -/
theorem IsSetAt.trans {loc : List PathSegment} {old value' : JsValue}
    (hold : resolvePathSegments doc loc = some old) (h : IsSetAt doc loc value current)
    (h' : IsSetAt current loc value' result) : IsSetAt doc loc value' result := by
  refine ⟨h'.holds, fun other hother hbelow habove => ?_, fun above habove _ hnone => ?_⟩
  · rw [h'.frame other hother hbelow habove, h.frame other hother hbelow habove]
  · obtain ⟨below, rfl⟩ := habove
    rw [resolvePathSegments_append, hnone] at hold
    cases hold

/-- A document that differs from another only in the mapping at a path. -/
structure Rewritten (doc : JsValue) (segments : List PathSegment) (current : JsValue)
    (map : Record JsValue) : Prop where
  /-- A mapping was at the path. -/
  was : ∃ target, resolvePathSegments doc segments = some (.obj target)
  /-- The mapping is at the path. -/
  resolves : resolvePathSegments current segments = some (.obj map)
  /-- The path stands for the same location. -/
  located : locate segments current = locate segments doc
  /-- Nothing else has changed. -/
  isSetAt : IsSetAt doc (locate segments doc) (.obj map) current
  /-- What replaces the mapping might as well have replaced the one that was there. -/
  collapses : ∀ new, replaceAt new segments current = replaceAt new segments doc

/-- A document with a mapping at the path. -/
theorem Rewritten.refl (h : resolvePathSegments doc segments = some (.obj map)) :
    Rewritten doc segments doc map :=
  ⟨⟨map, h⟩, h, rfl, .self (by rw [resolvePathSegments_locate, h]), fun _ => rfl⟩

/-- The document is the one with the mapping in its place. -/
theorem Rewritten.same (h : Rewritten doc segments current map) :
    JsValue.Same current (replaceAt (.obj map) segments doc) := by
  rw [← h.collapses]
  exact (replaceAt_self h.resolves).symm

/-- A mapping that has the old member under the name matches as the old one did. -/
theorem itemMatchesSeg_congr {map' : Record JsValue} {name text : JsString}
    (hold : resolvePathSegments current segments = some (.obj map))
    (hlast : segments.getLast? = some (.match name text))
    (hget : Record.get map' name = Record.get map name) :
    itemMatchesSeg name text (.obj map') = true := by
  have hmatches := itemMatchesSeg_of_resolve hold hlast
  simp only [itemMatchesSeg] at hmatches ⊢
  rwa [hget]

/-- Replacing the mapping by one that still matches. -/
theorem Rewritten.replaceAt (h : Rewritten doc segments current map) {map' : Record JsValue}
    (hmatch : ∀ name text, segments.getLast? = some (.match name text) →
      itemMatchesSeg name text (.obj map') = true) :
    Rewritten doc segments (replaceAt (.obj map') segments current) map' := by
  have hfits : FitsAt segments (.obj map) (.obj map') := ⟨rfl, hmatch⟩
  obtain ⟨target, htarget⟩ := h.was
  have hat : IsSetAt current (locate segments current) (.obj map')
      (T3x.Yops.replaceAt (.obj map') segments current) := isSetAt_replaceAt h.resolves rfl
  rw [h.located] at hat
  rw [← resolvePathSegments_locate] at htarget
  exact ⟨h.was, resolvePathSegments_replaceAt h.resolves hfits,
    (locate_replaceAt h.resolves hfits).trans h.located, .trans htarget h.isSetAt hat,
    fun new => (replaceAt_replaceAt h.resolves hfits).trans (h.collapses new)⟩

/-- Deleting a child that its text names: nothing where there is none, and else the mapping
without it is put in the mapping's place. -/
theorem deleteChild_cases (hresolves : resolvePathSegments current (parsePath path) =
      some (.obj map)) (hname : NamesChild path key) :
    (deleteAtPath current (childPath path key)).getD current = current ∧
        Record.get map key = none ∨
      (deleteAtPath current (childPath path key)).getD current =
        replaceAt (.obj (Record.erase map key)) (parsePath path) current := by
  cases hdelete : deleteAtPath current (childPath path key) with
  | none =>
    refine .inl ⟨rfl, ?_⟩
    by_contra hsome
    obtain ⟨member, hmember⟩ := Option.ne_none_iff_exists'.mp hsome
    have hresolve : resolvePathSegments current (parsePath (childPath path key)) =
        some member := by
      rw [hname, resolvePathSegments_append, hresolves, Option.bind_some,
        resolvePathSegments_cons]
      exact Option.bind_eq_some_iff.mpr ⟨member, hmember, rfl⟩
    have hne : parsePath (childPath path key) ≠ [] := by simp [show parsePath _ = _ from hname]
    obtain ⟨deleted, hdeleted⟩ := exists_deleteRecursive hne hresolve
    have hsome' := deleteAtPathSegments_eq_some_iff.mpr ⟨hne, by rw [hresolve]; rfl, hdeleted⟩
    rw [deleteAtPath, hsome'] at hdelete
    cases hdelete
  | some deleted =>
    obtain ⟨-, -, hdeleted⟩ := deleteAtPathSegments_eq_some_iff.mp hdelete
    rw [show parsePath (childPath path key) = _ from hname,
      deleteRecursive_append_eq_some_iff hresolves (List.cons_ne_nil _ _)] at hdeleted
    obtain ⟨new, hnew, rfl⟩ := hdeleted
    obtain ⟨_, -, hresult⟩ := Option.bind_eq_some_iff.mp hnew
    obtain rfl := Option.some.inj hresult
    exact .inr rfl

/-- Setting a child that its text names puts the mapping with the child in the mapping's
place. -/
theorem setChild_eq (hresolves : resolvePathSegments current (parsePath path) = some (.obj map))
    (hname : NamesChild path key) : setAtPath current (childPath path key) value =
      .ok (replaceAt (.obj (Record.setOwn map key value)) (parsePath path) current) := by
  rw [setAtPath, show parsePath (childPath path key) = _ from hname, setAtPathSegments,
    deepClone_eq, deepClone_eq, setRecursive_append_eq_ok_iff hresolves rfl]
  exact ⟨_, rfl, rfl⟩

/-- Deleting a child erases it from the mapping. -/
theorem Rewritten.deleteChild (h : Rewritten doc (parsePath path) current map)
    (hname : NamesChild path key) (hspares : SparesMatch (parsePath path) [key]) :
    ∃ map', Rewritten doc (parsePath path)
        ((deleteAtPath current (childPath path key)).getD current) map' ∧
      ∀ other, Record.get map' other = if other = key then none else Record.get map other := by
  rcases deleteChild_cases h.resolves hname with ⟨hsame, hnone⟩ | hdeleted
  · rw [hsame]
    refine ⟨map, h, fun other => ?_⟩
    split_ifs with hother
    · exact hother ▸ hnone
    · rfl
  · rw [hdeleted]
    refine ⟨Record.erase map key, h.replaceAt fun name text hlast => ?_,
      Record.get_erase map key⟩
    have hne : name ≠ key := fun heq => hspares name text hlast (heq ▸ List.mem_singleton_self _)
    exact itemMatchesSeg_congr h.resolves hlast (by rw [Record.get_erase, if_neg hne])

/-- Deleting children erases them from the mapping. -/
theorem Rewritten.deleteChildren (h : Rewritten doc (parsePath path) current map)
    (hnames : ∀ key ∈ keys, NamesChild path key) (hspares : SparesMatch (parsePath path) keys) :
    ∃ map', Rewritten doc (parsePath path) (deleteChildren current path keys) map' ∧
      ∀ other, Record.get map' other = if other ∈ keys then none else Record.get map other := by
  induction keys generalizing current map with
  | nil => exact ⟨map, h, fun other => by simp⟩
  | cons key keys ih =>
    obtain ⟨hname, hnames⟩ := List.forall_mem_cons.mp hnames
    have hkey : SparesMatch (parsePath path) [key] := fun name text hlast hmem =>
      hspares name text hlast (List.mem_cons.mpr (.inl (List.mem_singleton.mp hmem)))
    have hkeys : SparesMatch (parsePath path) keys := fun name text hlast hmem =>
      hspares name text hlast (List.mem_cons_of_mem _ hmem)
    obtain ⟨map', h', hmap'⟩ := h.deleteChild hname hkey
    obtain ⟨map'', h'', hmap''⟩ := ih h' hnames hkeys
    refine ⟨map'', h'', fun other => ?_⟩
    rw [hmap'', hmap']
    by_cases hother : other = key <;> simp [hother]

/-- Setting a child defines it in the mapping. -/
theorem Rewritten.setChild (h : Rewritten doc (parsePath path) current map)
    (hname : NamesChild path key) (hspares : SparesMatch (parsePath path) [key])
    (hset : setAtPath current (childPath path key) value = .ok result) :
    Rewritten doc (parsePath path) result (Record.setOwn map key value) := by
  rw [setChild_eq h.resolves hname] at hset
  obtain rfl := Except.ok.inj hset
  refine h.replaceAt fun name text hlast => ?_
  have hne : name ≠ key := fun heq => hspares name text hlast (heq ▸ List.mem_singleton_self _)
  exact itemMatchesSeg_congr h.resolves hlast (by rw [Record.get_setOwn, if_neg hne])

/-- Setting children defines them in the mapping, the last one of a name counting. -/
theorem Rewritten.setChildren (h : Rewritten doc (parsePath path) current map)
    (hnames : ∀ key ∈ parts.map Prod.fst, NamesChild path key)
    (hspares : SparesMatch (parsePath path) (parts.map Prod.fst))
    (hset : parts.foldlM (fun current e => setAtPath current (childPath path e.1) e.2) current =
      .ok result) :
    Rewritten doc (parsePath path) result
      (parts.foldl (fun map e => Record.setOwn map e.1 e.2) map) := by
  induction parts generalizing current map with
  | nil =>
    obtain rfl := Except.ok.inj hset
    exact h
  | cons e parts ih =>
    obtain ⟨hname, hnames⟩ := List.forall_mem_cons.mp hnames
    obtain ⟨next, hnext, hset⟩ := bind_eq_ok_iff.mp hset
    have hkey : SparesMatch (parsePath path) [e.1] := fun name text hlast hmem =>
      hspares name text hlast (List.mem_cons.mpr (.inl (List.mem_singleton.mp hmem)))
    have hkeys : SparesMatch (parsePath path) (parts.map Prod.fst) := fun name text hlast hmem =>
      hspares name text hlast (List.mem_cons_of_mem _ hmem)
    exact ih (h.setChild hname hkey hnext) hnames hkeys hset

/-- Members deleted and others put in their place: the mapping at the path has the parts and what
was not deleted, and nothing else has changed. -/
theorem rewritten_of_regroup (htarget : resolvePath doc path = some (.obj target))
    (hkeys : ∀ key ∈ keys, NamesChild path key)
    (hparts : ∀ key ∈ parts.map Prod.fst, NamesChild path key)
    (hspares : SparesMatch (parsePath path) keys)
    (hspares' : SparesMatch (parsePath path) (parts.map Prod.fst))
    (hset : parts.foldlM (fun current e => setAtPath current (childPath path e.1) e.2)
      (deleteChildren doc path keys) = .ok result) :
    ∃ map, Rewritten doc (parsePath path) result map ∧
      ∀ key, Record.get map key = (Record.get parts.reverse key).or
        (if key ∈ keys then none else Record.get target key) := by
  obtain ⟨rest, hrest, hget⟩ := (Rewritten.refl htarget).deleteChildren hkeys hspares
  have hresult := hrest.setChildren hparts hspares' hset
  refine ⟨_, hresult, fun key => ?_⟩
  rw [Record.get_foldl_setOwn, hget]

/-! ## Nesting and splitting -/

/-- The members that are collected under the keys. -/
theorem get_gather (map : Record JsValue) (keys : List JsString) (key : JsString) :
    Record.get (gather map keys) key =
      if key ∈ keys then some ((Record.get map key).getD .null) else none := by
  induction keys using List.reverseRecOn with
  | nil => rfl
  | append_singleton keys last ih =>
    have hlast : gather map (keys ++ [last]) =
        Record.setOwn (gather map keys) last ((Record.get map last).getD .null) := by
      simp [gather, List.foldl_append]
    rw [hlast, Record.get_setOwn, ih]
    by_cases hkey : key = last <;> simp [hkey]

/-- The groups that an operation makes, each with the keys of its members. -/
inductive Regroups (fields : Record JsValue) : String → Record (List JsString) → Prop
  | nest : Regroups fields "nest" [(textField fields "under", keysField fields "keys")]
  | split : Regroups fields "split"
      (Record.mapValues (fun keys => keys.items.map JsValue.text) (entriesField fields "into"))

/-- What the groups leave of a mapping: each has exactly its members with their old values, and
the rest has every other member. -/
structure IsRegrouped (target map : Record JsValue) (groups : Record (List JsString)) : Prop where
  /-- Every moved key was there. -/
  there : ∀ key ∈ groups.flatMap Prod.snd, Record.has target key = true
  /-- A key moves to one group. -/
  once : groups.Pairwise fun a b => ∀ key ∈ a.2, key ∉ b.2
  /-- A group has exactly its members. -/
  group : ∀ name keys, (name, keys) ∈ groups → ∃ members,
    Record.get map name = some (.obj members) ∧
      ∀ key, Record.get members key = if key ∈ keys then Record.get target key else none
  /-- The moved keys are gone, and the others are as they were. -/
  rest : ∀ key, key ∉ groups.map Prod.fst → Record.get map key =
    if key ∈ groups.flatMap Prod.snd then none else Record.get target key

/-- Keys of which none is repeated. -/
theorem nodup_of_firstRepeated {seen keys : List JsString} (h : firstRepeated seen keys = none) :
    keys.Nodup ∧ ∀ key ∈ keys, key ∉ seen := by
  induction keys generalizing seen with
  | nil => exact ⟨List.nodup_nil, by simp⟩
  | cons key keys ih =>
    rw [firstRepeated] at h
    split_ifs at h with hseen
    obtain ⟨hnodup, hnot⟩ := ih h
    refine ⟨List.nodup_cons.mpr ⟨fun hmem => hnot key hmem (by simp), hnodup⟩, ?_⟩
    exact List.forall_mem_cons.mpr ⟨hseen, fun other hmem hother =>
      hnot other hmem (List.mem_cons_of_mem _ hother)⟩

/-- What a regrouping that succeeds has checked and done. -/
structure RegroupSteps (doc : JsValue) (path : JsString) (groups : Record (List JsString))
    (result : JsValue) (target : Record JsValue) (keys : List JsString) : Prop where
  /-- The mapping is at the path. -/
  resolves : resolvePath doc path = some (.obj target)
  /-- The deleted keys are the moved ones. -/
  deleted : ∀ key, key ∈ keys ↔ key ∈ groups.flatMap Prod.snd
  /-- Every moved key is a member. -/
  there : ∀ key ∈ groups.flatMap Prod.snd, Record.has target key = true
  /-- The name of a group is free or moved. -/
  free : ∀ name ∈ groups.map Prod.fst, Record.has target name = true →
    name ∈ groups.flatMap Prod.snd
  /-- No name is that of two groups. -/
  names : (groups.map Prod.fst).Nodup
  /-- A key moves to one group. -/
  once : groups.Pairwise fun a b => ∀ key ∈ a.2, key ∉ b.2
  /-- The children are deleted, then the groups are set. -/
  set : (Record.mapValues (fun keys => JsValue.obj (gather target keys)) groups).foldlM
    (fun current e => setAtPath current (childPath path e.1) e.2)
    (deleteChildren doc path keys) = .ok result

/-- Nesting makes one group. -/
theorem nestHandler_eq_ok {fields : Record JsValue} {index : ℕ}
    (h : nestHandler doc fields index = .ok result) :
    ∃ target keys, RegroupSteps doc (textField fields "path")
      [(textField fields "under", keysField fields "keys")] result target keys := by
  obtain ⟨target, htarget, h⟩ := bind_eq_ok_iff.mp h
  obtain ⟨_, hsiblings, h⟩ := bind_eq_ok_iff.mp h
  have hthere := checkSiblings_eq_ok_iff.mp hsiblings
  by_cases hfree : Record.has target (textField fields "under") = true ∧
      textField fields "under" ∉ keysField fields "keys"
  · rw [if_pos hfree] at h
    cases h
  rw [if_neg hfree, deepClone_eq] at h
  refine ⟨target, keysField fields "keys", mappingAt_eq_ok_iff.mp htarget, by simp,
    by simpa using hthere, ?_, by simp, by simp, ?_⟩
  · intro name hname hhas
    obtain rfl := List.mem_singleton.mp hname
    simpa using not_and.mp hfree hhas
  · exact bind_eq_ok_iff.mpr ⟨result, throwing_eq_ok_iff.mp h, rfl⟩

/-- Splitting makes the groups that the operation lists. -/
theorem splitHandler_eq_ok {fields : Record JsValue} {index : ℕ}
    (h : splitHandler doc fields index = .ok result) :
    ∃ target keys, RegroupSteps doc (textField fields "path")
      (Record.mapValues (fun keys => keys.items.map JsValue.text) (entriesField fields "into"))
      result target keys := by
  obtain ⟨target, htarget, h⟩ := bind_eq_ok_iff.mp h
  simp only at h
  generalize hgroups : Record.mapValues (fun keys : JsValue => keys.items.map JsValue.text)
    (entriesField fields "into") = groups at h ⊢
  have hnames : (groups.map Prod.fst).Nodup := by
    rw [← hgroups, Record.mapValues, List.map_map]
    unfold entriesField
    split
    · next map _ => exact Record.keys_nodup map
    · exact List.nodup_nil
  cases hrepeated : firstRepeated [] (groups.flatMap Prod.snd) with
  | some key =>
    simp only [hrepeated] at h
    cases h
  | none =>
    cases hmissing : (groups.flatMap Prod.snd).find? fun key => !Record.has target key with
    | some key =>
      simp only [hrepeated, hmissing] at h
      cases h
    | none =>
      cases hcollides : groups.find? fun e =>
          Record.has target e.1 && decide (e.1 ∉ groups.flatMap Prod.snd) with
      | some e =>
        simp only [hrepeated, hmissing, hcollides] at h
        cases h
      | none =>
        simp only [hrepeated, hmissing, hcollides, deepClone_eq] at h
        refine ⟨target, distinct (groups.flatMap Prod.snd), mappingAt_eq_ok_iff.mp htarget,
          by simp, fun key hkey => by simpa using List.find?_eq_none.mp hmissing key hkey, ?_,
          hnames, ?_, ?_⟩
        · intro name hname hhas
          obtain ⟨e, he, rfl⟩ := List.mem_map.mp hname
          have hnot := List.find?_eq_none.mp hcollides e he
          simpa [hhas] using hnot
        · have hdisjoint := (List.nodup_flatMap.mp (nodup_of_firstRepeated hrepeated).1).2
          exact hdisjoint.imp fun hab key hkey hkey' => hab hkey hkey'
        · rw [Record.mapValues, List.foldlM_map]
          exact throwing_eq_ok_iff.mp h

/-- Where every text names its child, the steps of a regrouping put the groups and what is not
moved in the mapping's place. -/
theorem RegroupSteps.rewritten {groups : Record (List JsString)}
    (h : RegroupSteps doc path groups result target keys)
    (hnames : ∀ key, key ∈ groups.map Prod.fst ∨ key ∈ groups.flatMap Prod.snd →
      NamesChild path key)
    (hspares : SparesMatch (parsePath path) (groups.flatMap Prod.snd)) :
    ∃ map, Rewritten doc (parsePath path) result map ∧ ∀ key, Record.get map key =
      ((Record.get groups key).map fun keys => JsValue.obj (gather target keys)).or
        (if key ∈ groups.flatMap Prod.snd then none else Record.get target key) := by
  have hfst : (Record.mapValues (fun keys => JsValue.obj (gather target keys)) groups).map
      Prod.fst = groups.map Prod.fst := by
    rw [Record.mapValues, List.map_map]
    rfl
  have hspares' : SparesMatch (parsePath path) (groups.map Prod.fst) := by
    intro name text hlast hmem
    obtain ⟨map, member, hmap, hmember, -⟩ :=
      itemMatchesSeg_eq_true (itemMatchesSeg_of_resolve h.resolves hlast)
    obtain rfl := JsValue.obj.inj hmap
    have hhas : Record.has target name = true := Record.has_eq_true.mpr ⟨member, hmember⟩
    exact hspares name text hlast (h.free name hmem hhas)
  obtain ⟨map, hrewritten, hget⟩ := rewritten_of_regroup h.resolves
    (fun key hkey => hnames key (.inr ((h.deleted key).mp hkey)))
    (fun key hkey => hnames key (.inl (hfst ▸ hkey)))
    (fun name text hlast hmem => hspares name text hlast ((h.deleted name).mp hmem))
    (hfst ▸ hspares') h.set
  refine ⟨map, hrewritten, fun key => ?_⟩
  have hreverse : Record.get (Record.mapValues (fun keys => JsValue.obj (gather target keys))
      groups).reverse key = (Record.get groups key).map fun keys =>
        JsValue.obj (gather target keys) := by
    rw [← Record.get_mapValues]
    exact Record.get_perm (by rw [hfst]; exact h.names) (List.reverse_perm _).symm key
  rw [hget, hreverse]
  simp only [h.deleted]

/-- Where every text names its child, the steps of a regrouping regroup the mapping. -/
theorem RegroupSteps.isRegrouped {groups : Record (List JsString)}
    (h : RegroupSteps doc path groups result target keys)
    (hnames : ∀ key, key ∈ groups.map Prod.fst ∨ key ∈ groups.flatMap Prod.snd →
      NamesChild path key)
    (hspares : SparesMatch (parsePath path) (groups.flatMap Prod.snd)) :
    ∃ map, IsSetAt doc (locate (parsePath path) doc) (.obj map) result ∧
      IsRegrouped target map groups := by
  obtain ⟨map, hrewritten, hget⟩ := h.rewritten hnames hspares
  refine ⟨map, hrewritten.isSetAt, h.there, h.once, fun name keys hmem => ?_, fun key hkey => ?_⟩
  · refine ⟨gather target keys, ?_, fun key => ?_⟩
    · rw [hget, Record.get_eq_some_of_mem h.names hmem]
      rfl
    · rw [get_gather]
      split_ifs with hkey
      · obtain ⟨member, hmember⟩ := Record.has_eq_true.mp
          (h.there key (List.mem_flatMap.mpr ⟨(name, keys), hmem, hkey⟩))
        rw [hmember, Option.getD_some]
      · rfl
  · have hnone : Record.get groups key = none := by
      cases hgroup : Record.get groups key with
      | none => rfl
      | some keys =>
        exact absurd (List.mem_map_of_mem (Record.mem_of_get hgroup)) hkey
    rw [hget, hnone, Option.map_none, Option.none_or]

/-- A nest or a split that is applied regroups the mapping at its path and changes nothing else,
where the text of every moved key and of every group names the child and the last segment of the
path does not match by a moved key. -/
theorem regroup_conserves (issueMessage : JsValue → JsString) {op fields : Record JsValue}
    {name : String} {groups : Record (List JsString)} {doc result : JsValue} {index : ℕ}
    (hcall : IsCall op name fields) (hgroups : Regroups fields name groups)
    (hnames : ∀ key, key ∈ groups.map Prod.fst ∨ key ∈ groups.flatMap Prod.snd →
      NamesChild (textField fields "path") key)
    (hspares : SparesMatch (parsePath (textField fields "path")) (groups.flatMap Prod.snd))
    (happly : (applyOp issueMessage (.obj op) doc index).1 = .ok result) :
    ∃ target map, resolvePath doc (textField fields "path") = some (.obj target) ∧
      IsSetAt doc (locate (parsePath (textField fields "path")) doc) (.obj map) result ∧
      IsRegrouped target map groups := by
  obtain ⟨handler, hhandler, hresult⟩ := handler_of_applyOp issueMessage hcall happly
  cases hgroups with
  | nest =>
    obtain rfl := Option.some.inj hhandler
    obtain ⟨target, keys, hsteps⟩ := nestHandler_eq_ok hresult
    obtain ⟨map, hset, hregrouped⟩ := hsteps.isRegrouped hnames hspares
    exact ⟨target, map, hsteps.resolves, hset, hregrouped⟩
  | split =>
    obtain rfl := Option.some.inj hhandler
    obtain ⟨target, keys, hsteps⟩ := splitHandler_eq_ok hresult
    obtain ⟨map, hset, hregrouped⟩ := hsteps.isRegrouped hnames hspares
    exact ⟨target, map, hsteps.resolves, hset, hregrouped⟩

/-- Nesting `a` under `w`. -/
theorem regroup_conserves_nest :
    ∃ target map, resolvePath (.obj [(js "p", .obj [(js "a", .null), (js "b", .null)])])
        (js "p") = some (.obj target) ∧
      IsSetAt (.obj [(js "p", .obj [(js "a", .null), (js "b", .null)])])
        (locate (parsePath (js "p")) (.obj [(js "p", .obj [(js "a", .null), (js "b", .null)])]))
        (.obj map)
        (.obj [(js "p", .obj [(js "b", .null), (js "w", .obj [(js "a", .null)])])]) ∧
      IsRegrouped target map [(js "w", [js "a"])] := by
  refine @regroup_conserves (fun _ => js "Invalid input")
    [(js "nest", .obj [(js "path", .str (js "p")), (js "keys", .arr [.str (js "a")]),
      (js "under", .str (js "w"))])]
    [(js "path", .str (js "p")), (js "keys", .arr [.str (js "a")]), (js "under", .str (js "w"))]
    "nest" _ _ _ 0 ⟨by decide, by decide⟩ .nest ?_ ?_ (by decide)
  · rintro key (hkey | hkey)
    · obtain rfl := List.mem_singleton.mp hkey
      rfl
    · obtain rfl := List.mem_singleton.mp hkey
      rfl
  · intro name text hlast
    cases hlast

/-- A key with a slash stays where it is, and a copy of its value is below the wrapper. -/
theorem nest_repeats_member :
    applyYOps (fun _ => js "Invalid input") (.obj [(js "p", .obj [(js "a/b", .null)])])
      [.obj [(js "nest", .obj [(js "path", .str (js "p")), (js "keys", .arr [.str (js "a/b")]),
        (js "under", .str (js "w"))])]] =
      { ok := true
        doc := .obj [(js "p", .obj [(js "a/b", .null), (js "w", .obj [(js "a/b", .null)])])]
        applied := 1
        error := none
        warnings := [] } := by
  decide

end T3x.Yops
