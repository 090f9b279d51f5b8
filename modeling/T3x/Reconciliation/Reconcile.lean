import T3x.Js.Location
import T3x.Js.Order
import T3x.ThreeWay

/-!
# Three-way reconciliation of workspace documents

A workspace draft and its branch changed a common base document. The merge
takes the changed side of every value, descends where all three values are
mappings, and reports a conflict where nothing settles the choice. Arrays are
atomic.
-/

namespace T3x.Reconciliation

open Js ThreeWay

/-! ## The merge -/

/-- `isDeepStrictEqual` of two optional values. -/
def isDeepStrictEqual (a b : Option JsValue) : Bool := sameReading id a b

/-- Two optional values are deeply equal exactly when they read alike. -/
theorem isDeepStrictEqual_iff (a b : Option JsValue) :
    isDeepStrictEqual a b = true ↔ reading id a = reading id b :=
  sameReading_iff a b

/-- What the merge of one value yields: the value, if any, and the paths of the
conflicts in it. -/
structure Merged where
  /-- The merged value, `none` when it is absent. -/
  value : Option JsValue
  /-- The reported paths, in order. -/
  conflicts : List JsString

/-- A key as it stands in a path. -/
def escapeKey (key : JsString) : JsString :=
  replaceAll (js "/") (js "~1") (replaceAll (js "~") (js "~0") key)

/-- The path of a member. -/
def childPath (path key : JsString) : JsString := path ++ unit '/' :: escapeKey key

/-- A conflict at a path keeps our value. -/
def unmerged (ours : Option JsValue) (path : JsString) : Merged :=
  ⟨ours, [if path = [] then js "/" else path]⟩

/-- The names of three mappings, each once, in the order of `sort()`. -/
def unionKeys (before ours theirs : List JsString) : List JsString :=
  sortBy compareCodeUnits (before ++ ours ++ theirs).dedup

/-- Put the merged members of a mapping together. -/
def collect (parts : List (JsString × Merged)) : Merged :=
  ⟨some (.obj (Record.fromEntries
      (parts.filterMap fun part => part.2.value.map fun value => (part.1, value)))),
    parts.flatMap fun part => part.2.conflicts⟩

/-- The merge where the base holds no mapping. -/
def mergeLeaf (before ours theirs : Option JsValue) (path : JsString) : Merged :=
  match settle isDeepStrictEqual before ours theirs with
  | some value => ⟨value, []⟩
  | none => unmerged ours path

mutual

/-- The merge over a present base value. -/
def mergeValue : JsValue → Option JsValue → Option JsValue → JsString → Merged
  | .obj before, ours, theirs, path =>
    match settle isDeepStrictEqual (some (.obj before)) ours theirs with
    | some value => ⟨value, []⟩
    | none =>
      match ours, theirs with
      | some (.obj ours'), some (.obj theirs') =>
        let merges := mergeMembers before
        collect ((unionKeys (Record.keys merges) (Record.keys ours') (Record.keys theirs')).map
          fun key => (key, ((Record.get merges key).getD (mergeLeaf none)) (Record.get ours' key)
            (Record.get theirs' key) (childPath path key)))
      | _, _ => unmerged ours path
  | before, ours, theirs, path => mergeLeaf (some before) ours theirs path

/-- The merges of the members of a base mapping. -/
def mergeMembers :
    List (JsString × JsValue) → Record (Option JsValue → Option JsValue → JsString → Merged)
  | [] => []
  | (key, value) :: members => (key, mergeValue value) :: mergeMembers members

end

/-- `merge(before, ours, theirs, path)`. -/
def merge : Option JsValue → Option JsValue → Option JsValue → JsString → Merged
  | none => mergeLeaf none
  | some before => mergeValue before

/-- What a reconciliation returns. -/
structure Reconciled where
  /-- The merged document. -/
  current : Option JsValue
  /-- The paths of the conflicts. -/
  conflicts : List JsString

/-- `reconcileDocuments(base, ours, theirs)`. -/
def reconcileDocuments (base ours theirs : JsValue) : Reconciled :=
  let merged := merge (some base) (some ours) (some theirs) []
  ⟨merged.value, merged.conflicts⟩

/-- The merges of the members are the merges of their values. -/
theorem mergeMembers_eq_mapValues (members : Record JsValue) :
    mergeMembers members = Record.mapValues mergeValue members := by
  induction members with
  | nil => rfl
  | cons e members ih =>
    obtain ⟨key, value⟩ := e
    rw [mergeMembers, ih]
    rfl

/-- The parts that the merge of three mappings puts together. -/
def memberParts (before ours theirs : Record JsValue) (path : JsString) :
    List (JsString × Merged) :=
  (unionKeys (Record.keys before) (Record.keys ours) (Record.keys theirs)).map fun key =>
    (key, merge (Record.get before key) (Record.get ours key) (Record.get theirs key)
      (childPath path key))

/-- The recursion of the merge: settle the value, else descend into three
mappings, else report a conflict. -/
theorem merge_eq (before ours theirs : Option JsValue) (path : JsString) :
    merge before ours theirs path =
      match settle isDeepStrictEqual before ours theirs with
      | some value => ⟨value, []⟩
      | none =>
        match before, ours, theirs with
        | some (.obj before), some (.obj ours), some (.obj theirs) =>
          collect (memberParts before ours theirs path)
        | _, _, _ => unmerged ours path := by
  have hleaf : ∀ before : Option JsValue, isObj before = false →
      mergeLeaf before ours theirs path =
        match settle isDeepStrictEqual before ours theirs with
        | some value => ⟨value, []⟩
        | none =>
          match before, ours, theirs with
          | some (.obj before), some (.obj ours), some (.obj theirs) =>
            collect (memberParts before ours theirs path)
          | _, _, _ => unmerged ours path := by
    intro before hbefore
    unfold mergeLeaf
    cases settle isDeepStrictEqual before ours theirs with
    | some value => rfl
    | none => rcases before with _ | (_ | _ | _ | _ | _ | _) <;> simp_all [isObj]
  rcases before with _ | before
  · exact hleaf none rfl
  cases before with
  | obj members =>
    simp only [merge, mergeValue]
    cases settle isDeepStrictEqual (some (.obj members)) ours theirs with
    | some value => rfl
    | none =>
      have hmerges : ∀ key, (Record.get (mergeMembers members) key).getD (mergeLeaf none) =
          merge (Record.get members key) := by
        intro key
        rw [mergeMembers_eq_mapValues, Record.get_mapValues]
        cases Record.get members key <;> rfl
      rcases ours with _ | (_ | _ | _ | _ | _ | ours) <;> try rfl
      rcases theirs with _ | (_ | _ | _ | _ | _ | theirs) <;> try rfl
      simp only [hmerges]
      rw [mergeMembers_eq_mapValues, Record.keys_mapValues]
      rfl
  | _ => exact hleaf _ rfl

/-- The names of three mappings are merged once each. -/
theorem unionKeys_nodup (before ours theirs : List JsString) :
    (unionKeys before ours theirs).Nodup :=
  ((sortBy_perm _ _).nodup_iff).mpr (List.nodup_dedup _)

/-- A name is merged exactly when one of the mappings has it. -/
theorem mem_unionKeys {before ours theirs : Record JsValue} {key : JsString} :
    key ∈ unionKeys (Record.keys before) (Record.keys ours) (Record.keys theirs) ↔
      Record.has before key = true ∨ Record.has ours key = true ∨ Record.has theirs key = true := by
  unfold unionKeys
  rw [(sortBy_perm _ _).mem_iff, List.mem_dedup]
  simp only [List.mem_append, Record.mem_keys, or_assoc]

/-- Nothing on all three sides merges to nothing. -/
theorem merge_none (path : JsString) : merge none none none path = ⟨none, []⟩ := rfl

/-- The member of a merged mapping is the merge of the members. -/
theorem member_collect (before ours theirs : Record JsValue) (path key : JsString) :
    member (collect (memberParts before ours theirs path)).value key =
      (merge (Record.get before key) (Record.get ours key) (Record.get theirs key)
        (childPath path key)).value := by
  unfold collect memberParts
  rw [member_obj, List.filterMap_map]
  refine (Record.get_collected (unionKeys_nodup _ _ _) (fun key =>
    (merge (Record.get before key) (Record.get ours key) (Record.get theirs key)
      (childPath path key)).value) key).trans ?_
  split_ifs with hmem
  · rfl
  · rw [mem_unionKeys] at hmem
    simp only [not_or, Bool.not_eq_true, Record.has_eq_false] at hmem
    rw [hmem.1, hmem.2.1, hmem.2.2, merge_none]

/-- What the merge of three values does: it settles the value, or the values
are pairwise different and it descends into three mappings, or they are not all
mappings and it reports a conflict. -/
theorem merge_cases (before ours theirs : Option JsValue) (path : JsString) :
    (∃ value, settle isDeepStrictEqual before ours theirs = some value ∧
      merge before ours theirs path = ⟨value, []⟩) ∨
    (Differ (reading id) before ours theirs ∧ ∃ before' ours' theirs',
      before = some (.obj before') ∧ ours = some (.obj ours') ∧ theirs = some (.obj theirs') ∧
      merge before ours theirs path = collect (memberParts before' ours' theirs' path)) ∨
    (Differ (reading id) before ours theirs ∧
      ¬ (isObj before = true ∧ isObj ours = true ∧ isObj theirs = true) ∧
      merge before ours theirs path = unmerged ours path) := by
  rw [merge_eq]
  cases hsettle : settle isDeepStrictEqual before ours theirs with
  | some value => exact .inl ⟨value, rfl, rfl⟩
  | none =>
    have hdiffer := (settle_eq_none_iff isDeepStrictEqual_iff).mp hsettle
    right
    by_cases hobj : isObj before = true ∧ isObj ours = true ∧ isObj theirs = true
    · obtain ⟨hb, ho, ht⟩ := hobj
      obtain ⟨b, rfl⟩ := isObj_iff.mp hb
      obtain ⟨o, rfl⟩ := isObj_iff.mp ho
      obtain ⟨t, rfl⟩ := isObj_iff.mp ht
      exact .inl ⟨hdiffer, b, o, t, rfl, rfl, rfl, rfl⟩
    · refine .inr ⟨hdiffer, hobj, ?_⟩
      rcases before with _ | (_ | _ | _ | _ | _ | b) <;> try rfl
      rcases ours with _ | (_ | _ | _ | _ | _ | o) <;> try rfl
      rcases theirs with _ | (_ | _ | _ | _ | _ | t) <;> try rfl
      exact absurd ⟨rfl, rfl, rfl⟩ hobj

end T3x.Reconciliation
