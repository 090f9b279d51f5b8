import T3x.Yops.Handlers
import T3x.Yops.InPlace

/-!
# The order of values, sorting and removing duplicates

Values are compared by the rank of their type and then by their own order, which
is a total preorder: values compare as equal exactly when they have one canonical
key, that is when they are the same up to the order of members and the sign of
zero. A sorted sequence is an ordered permutation of the old one; of the items
of one key only the first stays.
-/

namespace T3x.Yops

open Js

/-! ## The comparison -/

/-- The order of numbers. -/
theorem compareYValues_num (x y : JsNumber) : compareYValues (.num x) (.num y) =
    if x.toRat < y.toRat then -1 else if y.toRat < x.toRat then 1 else 0 := by
  simp [compareYValues, JsNumber.lt, rankOf]

/-- A value of a lower rank comes first. -/
theorem compareYValues_of_rank {a b : JsValue} (h : rankOf a ≠ rankOf b) :
    compareYValues a b = rankOf a - rankOf b := if_pos h

/-- A value never comes before one of a lower rank. -/
theorem rankOf_le_of_compareYValues {a b : JsValue} (h : compareYValues a b ≤ 0) :
    rankOf a ≤ rankOf b := by
  by_cases hrank : rankOf a = rankOf b
  · exact hrank.le
  · rw [compareYValues_of_rank hrank] at h
    omega

/-- Two values of one type. -/
inductive SameType : JsValue → JsValue → Prop
  | null : SameType .null .null
  | bool (x y : Bool) : SameType (.bool x) (.bool y)
  | num (x y : JsNumber) : SameType (.num x) (.num y)
  | str (s t : JsString) : SameType (.str s) (.str t)
  | arr (items items' : List JsValue) : SameType (.arr items) (.arr items')
  | obj (map map' : Record JsValue) : SameType (.obj map) (.obj map')

/-- Values of one rank are of one type. -/
theorem sameType_of_rankOf {a b : JsValue} (h : rankOf a = rankOf b) : SameType a b := by
  cases a <;> cases b <;> first
    | (simp only [rankOf] at h; omega)
    | constructor

/-- Values that are the same have one rank. -/
theorem rankOf_congr {a b : JsValue} (h : JsValue.Same a b) : rankOf a = rankOf b := by
  cases h.cases <;> rfl

/-- Exchanging the values negates the comparison. -/
theorem compareYValues_swap (a b : JsValue) : compareYValues b a = -compareYValues a b := by
  by_cases hrank : rankOf a = rankOf b
  · have hcodepoints := isStringOrder_compareCodepoints.swap
    cases sameType_of_rankOf hrank with
    | null => rfl
    | bool x y => cases x <;> cases y <;> rfl
    | num x y =>
      rw [compareYValues_num, compareYValues_num]
      split_ifs <;> first | rfl | linarith
    | str s t => exact hcodepoints s t
    | arr items items' => exact hcodepoints _ _
    | obj map map' => exact hcodepoints _ _
  · rw [compareYValues_of_rank hrank, compareYValues_of_rank (Ne.symm hrank)]
    omega

/-- The comparison is transitive. -/
theorem compareYValues_trans (a b c : JsValue) (hab : compareYValues a b ≤ 0)
    (hbc : compareYValues b c ≤ 0) : compareYValues a c ≤ 0 := by
  have hab' := rankOf_le_of_compareYValues hab
  have hbc' := rankOf_le_of_compareYValues hbc
  by_cases hrank : rankOf a = rankOf c
  · have hcodepoints := isStringOrder_compareCodepoints.trans
    have hab'' : rankOf a = rankOf b := by omega
    have hbc'' : rankOf b = rankOf c := by omega
    cases sameType_of_rankOf hab'' with
    | null => cases sameType_of_rankOf hbc''; exact hab
    | bool x y =>
      cases sameType_of_rankOf hbc'' with
      | bool _ z => revert hab hbc; cases x <;> cases y <;> cases z <;> decide
    | num x y =>
      cases sameType_of_rankOf hbc'' with
      | num _ z =>
        rw [compareYValues_num] at hab hbc ⊢
        split_ifs at hab hbc ⊢ <;> first | omega | linarith
    | str r s =>
      cases sameType_of_rankOf hbc'' with
      | str _ t => exact hcodepoints r s t hab hbc
    | arr items items' =>
      cases sameType_of_rankOf hbc'' with
      | arr _ items'' => exact hcodepoints _ _ _ hab hbc
    | obj map map' =>
      cases sameType_of_rankOf hbc'' with
      | obj _ map'' => exact hcodepoints _ _ _ hab hbc
  · rw [compareYValues_of_rank hrank]
    omega

/-- The comparison of values is a total preorder. -/
theorem isComparison_compareYValues : IsComparison compareYValues :=
  ⟨compareYValues_swap, compareYValues_trans⟩

/-- Values compare as equal exactly when they are the same. -/
theorem compareYValues_eq_zero_iff {a b : JsValue} :
    compareYValues a b = 0 ↔ JsValue.Same a b := by
  by_cases hrank : rankOf a = rankOf b
  · have hcodepoints := isStringOrder_compareCodepoints.eq_zero
    cases sameType_of_rankOf hrank with
    | null => exact ⟨fun _ => rfl, fun _ => rfl⟩
    | bool x y => cases x <;> cases y <;> simp [compareYValues, rankOf, JsValue.Same]
    | num x y =>
      have hsame : JsValue.Same (.num x) (.num y) ↔ x.toRat = y.toRat := by
        rw [← JsNumber.dropZeroSign_eq_iff]
        simp [JsValue.Same]
      rw [hsame, compareYValues_num]
      rcases lt_trichotomy x.toRat y.toRat with hlt | heq | hgt
      · simp [hlt, hlt.ne]
      · simp [heq]
      · simp [hgt, hgt.not_gt, hgt.ne']
    | str s t => exact (hcodepoints s t).trans (by simp [JsValue.Same])
    | arr items items' => exact (hcodepoints _ _).trans canonicalKey_eq_iff
    | obj map map' => exact (hcodepoints _ _).trans canonicalKey_eq_iff
  · rw [compareYValues_of_rank hrank]
    exact ⟨fun h => absurd (by omega) hrank, fun h => absurd (rankOf_congr h) hrank⟩

/-! ## Sorting -/

variable {doc result : JsValue} {fields : Record JsValue} {index : ℕ}

/-- The comparison of a sort: by the member that the operation names, if it names one. -/
def sortOrder (fields : Record JsValue) (a b : JsValue) : ℤ :=
  let by' := goesBy (optionalText fields "by")
  if (optionalText fields "order").getD (js "asc") = js "desc" then -compareYValues (by' a) (by' b)
  else compareYValues (by' a) (by' b)

/-- The comparison of a sort is a total preorder. -/
theorem isComparison_sortOrder (fields : Record JsValue) : IsComparison (sortOrder fields) := by
  have hasc := isComparison_compareYValues.comap (goesBy (optionalText fields "by"))
  unfold sortOrder
  split_ifs
  · exact hasc.neg
  · exact hasc

/-- A sequence that is written back to its path is there. -/
theorem resolvePath_setAtPath_arr {path : JsString} {items : List JsValue} {value : JsValue}
    (hitems : resolvePath doc path = some (.arr items))
    (hset : setAtPath doc path value = .ok result) : resolvePath result path = some value := by
  rw [setAtPath, setAtPathSegments, deepClone_eq, deepClone_eq,
    setRecursive_eq_replaceAt hitems rfl] at hset
  obtain rfl := Except.ok.inj hset
  exact resolvePathSegments_replaceAt hitems (fitsAt_arr hitems)

/-- A sort leaves an ordered permutation of the sequence at its path. -/
theorem sortHandler_sorts (h : sortHandler doc fields index = .ok result) :
    ∃ items sorted, resolvePath doc (textField fields "path") = some (.arr items) ∧
      resolvePath result (textField fields "path") = some (.arr sorted) ∧
      sorted.Perm items ∧ sorted.Pairwise fun a b => sortOrder fields a b ≤ 0 := by
  obtain ⟨items, hitems, h⟩ := bind_eq_ok_iff.mp h
  obtain ⟨_, -, h⟩ := bind_eq_ok_iff.mp h
  have hitems := sequenceAt_eq_ok_iff.mp hitems
  have hset := throwing_eq_ok_iff.mp h
  refine ⟨items, _, hitems, resolvePath_setAtPath_arr hitems hset, sortBy_perm _ items, ?_⟩
  exact (isComparison_sortOrder fields).sortBy_pairwise items

/-! ## Removing duplicates -/

/-- The items with no earlier item of the same key. -/
def firstOfEach {T K : Type} [DecidableEq K] (key : T → K) (items : List T) : List T :=
  (items.zipIdx.filter fun (e : T × ℕ) =>
    decide (∀ earlier ∈ items.take e.2, key earlier ≠ key e.1)).map Prod.fst

/-- The items that are kept behind the items `before`, whose keys have been seen. -/
theorem uniqueBy_eq {sortKey : Option JsString} {seen : List JsString}
    (before items : List JsValue)
    (hseen : ∀ key, key ∈ seen ↔ ∃ item ∈ before, canonicalKey (goesBy sortKey item) = key) :
    uniqueBy sortKey seen items =
      ((items.zipIdx before.length).filter fun (e : JsValue × ℕ) =>
        decide (∀ earlier ∈ (before ++ items).take e.2,
          canonicalKey (goesBy sortKey earlier) ≠ canonicalKey (goesBy sortKey e.1))).map
        Prod.fst := by
  induction items generalizing before seen with
  | nil => rfl
  | cons item items ih =>
    have hfirst : (∀ earlier ∈ (before ++ item :: items).take before.length,
        canonicalKey (goesBy sortKey earlier) ≠ canonicalKey (goesBy sortKey item)) ↔
        canonicalKey (goesBy sortKey item) ∉ seen := by
      rw [List.take_left, hseen]
      simp
    have hsplit : before ++ item :: items = (before ++ [item]) ++ items := by simp
    have hlength : (before ++ [item]).length = before.length + 1 := by simp
    rw [uniqueBy, List.zipIdx_cons, List.filter_cons]
    simp only [hfirst]
    by_cases hmem : canonicalKey (goesBy sortKey item) ∈ seen
    · rw [if_pos hmem, if_neg (by simpa using hmem), hsplit, ← hlength]
      refine ih (before ++ [item]) fun key => ?_
      rw [hseen key]
      obtain ⟨first, hbefore, hkey⟩ := (hseen _).mp hmem
      constructor
      · rintro ⟨other, hother, rfl⟩
        exact ⟨other, List.mem_append_left _ hother, rfl⟩
      · rintro ⟨other, hother, rfl⟩
        rcases List.mem_append.mp hother with hother | hother
        · exact ⟨other, hother, rfl⟩
        · obtain rfl := List.mem_singleton.mp hother
          exact ⟨first, hbefore, hkey⟩
    · rw [if_neg hmem, if_pos (by simpa using hmem), List.map_cons, hsplit, ← hlength]
      refine congrArg (item :: ·) (ih (before ++ [item]) fun key => ?_)
      rw [List.mem_cons, hseen key]
      simp only [List.mem_append, List.mem_singleton, or_and_right, exists_or, exists_eq_left]
      rw [or_comm, @eq_comm _ key]

/-- Of the items of one key the first is kept, and no other. -/
theorem uniqueBy_nil (sortKey : Option JsString) (items : List JsValue) :
    uniqueBy sortKey [] items =
      firstOfEach (fun item => canonicalKey (goesBy sortKey item)) items :=
  uniqueBy_eq [] items (by simp)

/-- Removing duplicates leaves the first item of each key at the path. -/
theorem uniqueHandler_keeps_first (h : uniqueHandler doc fields index = .ok result) :
    ∃ items, resolvePath doc (textField fields "path") = some (.arr items) ∧
      resolvePath result (textField fields "path") = some (.arr (firstOfEach
        (fun item => canonicalKey (goesBy (optionalText fields "by") item)) items)) := by
  obtain ⟨items, hitems, h⟩ := bind_eq_ok_iff.mp h
  obtain ⟨_, -, h⟩ := bind_eq_ok_iff.mp h
  have hitems := sequenceAt_eq_ok_iff.mp hitems
  have hset := throwing_eq_ok_iff.mp h
  refine ⟨items, hitems, ?_⟩
  rw [← uniqueBy_nil]
  exact resolvePath_setAtPath_arr hitems hset

/-- Values are totally preordered, and those that compare as equal are those of one canonical
key, which are the same up to the order of members and the sign of zero. A sort leaves an ordered
permutation of the sequence, and removing duplicates the first item of each class. -/
theorem values_are_ordered_by_class :
    (∀ a, compareYValues a a = 0) ∧
    (∀ a b, compareYValues a b ≤ 0 ∨ compareYValues b a ≤ 0) ∧
    (∀ a b, compareYValues b a = -compareYValues a b) ∧
    (∀ a b c, compareYValues a b ≤ 0 → compareYValues b c ≤ 0 → compareYValues a c ≤ 0) ∧
    (∀ a b, compareYValues a b = 0 ↔ canonicalKey a = canonicalKey b) ∧
    (∀ a b, canonicalKey a = canonicalKey b ↔ JsValue.Same a b) ∧
    (∀ doc fields index result, sortHandler doc fields index = .ok result →
      ∃ items sorted, resolvePath doc (textField fields "path") = some (.arr items) ∧
        resolvePath result (textField fields "path") = some (.arr sorted) ∧
        sorted.Perm items ∧ sorted.Pairwise fun a b => sortOrder fields a b ≤ 0) ∧
    ∀ doc fields index result, uniqueHandler doc fields index = .ok result →
      ∃ items, resolvePath doc (textField fields "path") = some (.arr items) ∧
        resolvePath result (textField fields "path") = some (.arr (firstOfEach
          (fun item => canonicalKey (goesBy (optionalText fields "by") item)) items)) :=
  ⟨isComparison_compareYValues.refl, isComparison_compareYValues.total,
    isComparison_compareYValues.swap, isComparison_compareYValues.trans,
    fun _ _ => compareYValues_eq_zero_iff.trans canonicalKey_eq_iff.symm,
    fun _ _ => canonicalKey_eq_iff,
    fun _ _ _ _ => sortHandler_sorts, fun _ _ _ _ => uniqueHandler_keeps_first⟩

end T3x.Yops
