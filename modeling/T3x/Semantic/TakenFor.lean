import T3x.Semantic.Slots

/-!
# Values that are taken for others

The comparison of slot values takes one value for another that reads differently
in one case only: an object has an empty object as a member named as the
prototype accessor, and the other object has any other member in its place.
-/

namespace T3x.Semantic

open Js

namespace SlotValue

mutual

/-- A value as a content holds it: nothing in it is inherited. -/
def isData : SlotValue → Bool
  | .builtin _ => false
  | .arr _ items => isDataItems items
  | .obj _ members => isDataMembers members
  | _ => true

/-- The items of an array are data. -/
def isDataItems : List SlotValue → Bool
  | [] => true
  | v :: items => v.isData && isDataItems items

/-- The members of an object are data. -/
def isDataMembers : List (JsString × SlotValue) → Bool
  | [] => true
  | (_, v) :: members => v.isData && isDataMembers members

end

/-- The items of an array are data exactly when each is. -/
theorem isDataItems_iff {items : List SlotValue} :
    isDataItems items = true ↔ ∀ v ∈ items, v.isData = true := by
  induction items with
  | nil => simp [isDataItems]
  | cons v items ih => simp [isDataItems, ih]

/-- The members of an object are data exactly when each is. -/
theorem isDataMembers_iff {members : Record SlotValue} :
    isDataMembers members = true ↔ ∀ e ∈ members, e.2.isData = true := by
  induction members with
  | nil => simp [isDataMembers]
  | cons e members ih =>
    obtain ⟨k, v⟩ := e
    simp [isDataMembers, ih]

mutual

/-- Whether a value is taken for another: it is the same, except that an object with an
empty object under the prototype accessor's name is taken for one that has any other
member in its place. -/
def takenFor : SlotValue → SlotValue → Prop
  | .arr _ items, b => match b with
    | .arr _ items' => takenItems items items'
    | _ => False
  | .obj _ members, b => match b with
    | .obj _ members' =>
      (Record.keys members).length = (Record.keys members').length ∧
        ∀ key taken, Record.get (takenMembers members) key = some taken →
          match Record.get members' key with
          | some value => taken value
          | none => key = Record.protoName ∧ taken (.obj 0 [])
    | _ => False
  | a, b => strictEq a b = true

/-- Whether items are taken for others one by one. -/
def takenItems : List SlotValue → List SlotValue → Prop
  | [], [] => True
  | v :: items, w :: items' => takenFor v w ∧ takenItems items items'
  | _, _ => False

/-- What the members of an object are taken for. -/
def takenMembers : List (JsString × SlotValue) → Record (SlotValue → Prop)
  | [] => []
  | (key, value) :: members => (key, takenFor value) :: takenMembers members

end

/-- What the members are taken for, one by one. -/
theorem takenMembers_eq_mapValues (members : Record SlotValue) :
    takenMembers members = Record.mapValues takenFor members := by
  induction members with
  | nil => rfl
  | cons e members ih =>
    obtain ⟨k, v⟩ := e
    rw [takenMembers, ih]
    rfl

/-- When an object is taken for another. -/
theorem takenFor_obj {r r' : ℕ} {m m' : Record SlotValue} :
    takenFor (.obj r m) (.obj r' m') ↔
      (Record.keys m).length = (Record.keys m').length ∧
        ∀ key v, Record.get m key = some v →
          (∃ w, Record.get m' key = some w ∧ takenFor v w) ∨
            (Record.get m' key = none ∧ key = Record.protoName ∧ takenFor v (.obj 0 [])) := by
  rw [takenFor, takenMembers_eq_mapValues]
  refine and_congr_right fun _ => forall_congr' fun key => ?_
  rw [Record.get_mapValues]
  constructor
  · intro h v hv
    have hkey := h (takenFor v) (by rw [hv]; rfl)
    cases hget : Record.get m' key with
    | none => exact .inr ⟨rfl, by simpa [hget] using hkey⟩
    | some w => exact .inl ⟨w, rfl, by simpa [hget] using hkey⟩
  · intro h taken htaken
    obtain ⟨v, hv, rfl⟩ := Option.map_eq_some_iff.mp htaken
    rcases h v hv with ⟨w, hw, hvw⟩ | ⟨hnone, hkey⟩
    · simpa [hw] using hvw
    · simpa [hnone] using hkey

/-- Items are taken for others exactly when each is, one by one. -/
theorem takenItems_iff {items items' : List SlotValue} :
    takenItems items items' ↔ List.Forall₂ takenFor items items' := by
  induction items generalizing items' with
  | nil => cases items' <;> simp [takenItems]
  | cons v items ih => cases items' <;> simp [takenItems, ih]

/-- Every value is taken for itself. -/
theorem takenFor_self (v : SlotValue) : takenFor v v := by
  induction v using SlotValue.induct with
  | scalar v hnesting =>
    cases v with
    | arr => simp [nesting] at hnesting
    | obj => simp [nesting] at hnesting
    | _ => exact strictEq_self _
  | arr r items ih =>
    rw [takenFor, takenItems_iff]
    exact List.forall₂_same.mpr ih
  | obj r members ih =>
    refine takenFor_obj.mpr ⟨rfl, fun key v hv => .inl ⟨v, hv, ?_⟩⟩
    exact ih _ (Record.mem_of_get hv)

/-- Only an object without members is taken for an empty object. -/
theorem takenFor_empty {v : SlotValue} :
    takenFor v (.obj 0 []) ↔ ∃ r m, v = .obj r m ∧ Record.keys m = [] := by
  cases v with
  | obj r m =>
    rw [takenFor_obj]
    constructor
    · rintro ⟨hlen, -⟩
      exact ⟨r, m, rfl, List.eq_nil_of_length_eq_zero hlen⟩
    · rintro ⟨_, _, heq, hnil⟩
      obtain ⟨rfl, rfl⟩ := SlotValue.obj.inj heq
      refine ⟨by rw [hnil]; rfl, fun key v hv => ?_⟩
      have hmem := Record.mem_keys.mpr (Record.has_eq_true.mpr ⟨v, hv⟩)
      rw [hnil] at hmem
      exact absurd hmem List.not_mem_nil
  | _ => simp [takenFor, strictEq]

end SlotValue

/-! ## The comparison tells what is taken for what -/

/-- What a value of a content equals among inherited values: an object without members
equals the prototype. -/
theorem deepEqual_builtin_iff {v : SlotValue} {name : JsString} {depth : ℕ}
    (hv : v.isData = true) (hdepth : depth ≤ maxDepth) :
    deepEqual v (.builtin name) depth = true ↔
      name = Record.protoName ∧ SlotValue.takenFor v (.obj 0 []) := by
  rw [SlotValue.takenFor_empty]
  cases v with
  | obj r m => simp [deepEqual, SlotValue.strictEq, hdepth]
  | builtin => simp [SlotValue.isData] at hv
  | _ => simp [deepEqual, SlotValue.strictEq]

/-- A member of data equals what another object has under its name exactly when it is
taken for that, or for the prototype under the accessor's name. -/
theorem everyMember_iff_of_isData {m m' : Record SlotValue} {depth : ℕ}
    (hm : SlotValue.isDataMembers m = true) (hdepth : depth ≤ maxDepth)
    (hmembers : ∀ e ∈ m, ∀ w, Record.get m' e.1 = some w →
      (deepEqual e.2 w depth = true ↔ SlotValue.takenFor e.2 w)) (r r' : ℕ) :
    everyMember (memberTests m) m' depth = true ↔
      SlotValue.takenFor (.obj r m) (.obj r' m') := by
  rw [SlotValue.takenFor_obj, everyMember, memberTests_eq_mapValues, Bool.and_eq_true,
    decide_eq_true_eq, Record.keys_mapValues, Record.entries_mapValues]
  refine and_congr_right fun _ => ?_
  simp only [Record.mapValues, List.all_map, List.all_eq_true, Function.comp_apply, Prod.forall,
    Record.mem_entries]
  refine forall_congr' fun key => forall_congr' fun v => forall_congr' fun hget => ?_
  have hmem := Record.mem_of_get hget
  cases hread : Record.get m' key with
  | some w => simp [readSlot, hread, hmembers _ hmem w hread]
  | none =>
    have hv := SlotValue.isDataMembers_iff.mp hm _ hmem
    have hproto : Record.protoName ∈ inheritedNames := by decide
    by_cases hkey : key ∈ inheritedNames
    · simp [readSlot, hread, hkey, deepEqual_builtin_iff hv hdepth]
    · have hne : key ≠ Record.protoName := fun heq => hkey (heq ▸ hproto)
      simp [readSlot, hread, hkey, hne]

/-- As many items that are equal one by one are items that are taken for one another. -/
theorem everyItem_iff_of_isData {items items' : List SlotValue} {depth : ℕ}
    (hitems : ∀ v ∈ items, ∀ w ∈ items', (deepEqual v w depth = true ↔ SlotValue.takenFor v w)) :
    (items.length = items'.length ∧ everyItem items items' depth = true) ↔
      SlotValue.takenItems items items' := by
  induction items generalizing items' with
  | nil => cases items' <;> simp [everyItem, SlotValue.takenItems]
  | cons v items ih =>
    cases items' with
    | nil => simp [SlotValue.takenItems]
    | cons w items' =>
      have hrest := ih fun v hv w hw =>
        hitems v (List.mem_cons_of_mem _ hv) w (List.mem_cons_of_mem _ hw)
      rw [SlotValue.takenItems, ← hrest, ← hitems v List.mem_cons_self w List.mem_cons_self,
        everyItem, Bool.and_eq_true, List.length_cons, List.length_cons, Nat.add_right_cancel_iff]
      exact and_left_comm

/-- The comparison of data that are not nested too deep tells what is taken for what. -/
theorem deepEqual_iff_takenFor {a b : SlotValue} {depth : ℕ} (ha : a.isData = true)
    (hb : b.isData = true) (hdepth : a.nesting + depth ≤ maxDepth) :
    deepEqual a b depth = true ↔ SlotValue.takenFor a b := by
  have hle : depth ≤ maxDepth := by omega
  have hstrict : ∀ {v w : SlotValue}, v.nesting ≠ 0 → SlotValue.strictEq v w = true → v = w := by
    intro v w hnesting h
    cases v <;> simp_all [SlotValue.nesting, SlotValue.strictEq]
  induction a using SlotValue.induct generalizing b depth with
  | scalar v hnesting =>
    cases v with
    | arr => simp [SlotValue.nesting] at hnesting
    | obj => simp [SlotValue.nesting] at hnesting
    | builtin => simp [SlotValue.isData] at ha
    | _ => simp only [deepEqual, decide_eq_true hle, Bool.true_and, SlotValue.takenFor]
  | arr r items ih =>
    rw [SlotValue.nesting] at hdepth
    cases b with
    | arr r' items' =>
      have hevery : (items.length = items'.length ∧ everyItem items items' (depth + 1) = true) ↔
          SlotValue.takenItems items items' :=
        everyItem_iff_of_isData fun v hv w hw => ih v hv (SlotValue.isDataItems_iff.mp ha v hv)
          (SlotValue.isDataItems_iff.mp hb w hw)
          (by have hle := SlotValue.nesting_le_items hv; omega) (by omega)
      simp only [deepEqual, decide_eq_true hle, Bool.true_and, Bool.or_eq_true, Bool.and_eq_true,
        decide_eq_true_eq, hevery, SlotValue.takenFor]
      refine or_iff_right_of_imp fun hsame => ?_
      obtain ⟨-, rfl⟩ := SlotValue.arr.inj (hstrict (by simp [SlotValue.nesting]) hsame)
      exact SlotValue.takenItems_iff.mpr (List.forall₂_same.mpr fun v _ => v.takenFor_self)
    | builtin => simp [SlotValue.isData] at hb
    | _ => simp [deepEqual, SlotValue.takenFor, SlotValue.strictEq]
  | obj r members ih =>
    rw [SlotValue.nesting] at hdepth
    cases b with
    | obj r' members' =>
      have hevery : everyMember (memberTests members) members' (depth + 1) = true ↔ _ :=
        everyMember_iff_of_isData ha (by omega) (fun e he w hw =>
          ih e he (SlotValue.isDataMembers_iff.mp ha e he)
          (SlotValue.isDataMembers_iff.mp hb _ (Record.mem_of_get hw))
          (by have hle := SlotValue.nesting_le_members he; omega) (by omega)) r r'
      simp only [deepEqual, decide_eq_true hle, Bool.true_and, Bool.or_eq_true, hevery]
      refine or_iff_right_of_imp fun hsame => ?_
      rw [← hstrict (by simp [SlotValue.nesting]) hsame]
      exact SlotValue.takenFor_self _
    | builtin => simp [SlotValue.isData] at hb
    | _ => simp [deepEqual, SlotValue.takenFor, SlotValue.strictEq]

/-! ## Values that read alike -/

/-- Items that read alike are taken for one another. -/
theorem SlotValue.takenItems_of_read {items items' : List SlotValue}
    (h : items.map read = items'.map read)
    (hitems : ∀ v ∈ items, ∀ w ∈ items', v.read = w.read → takenFor v w) :
    takenItems items items' := by
  induction items generalizing items' with
  | nil => cases items' <;> simp_all [takenItems]
  | cons v items ih =>
    cases items' with
    | nil => simp at h
    | cons w items' =>
      rw [List.map_cons, List.map_cons, List.cons.injEq] at h
      exact ⟨hitems v List.mem_cons_self w List.mem_cons_self h.1,
        ih h.2 fun v hv w hw =>
          hitems v (List.mem_cons_of_mem _ hv) w (List.mem_cons_of_mem _ hw)⟩

/-- Data of one reading are taken for one another. -/
theorem SlotValue.takenFor_of_read {a b : SlotValue} (ha : a.isData = true) (hb : b.isData = true)
    (h : a.read = b.read) : takenFor a b := by
  induction a using SlotValue.induct generalizing b with
  | scalar v hnesting =>
    cases v <;> cases b <;>
      simp_all [read, toJs, isData, nesting, takenFor, strictEq, JsNumber.strictEq]
  | arr r items ih =>
    cases b with
    | arr r' items' =>
      rw [read_arr, read_arr, Doc.arr.injEq] at h
      exact takenItems_of_read h fun v hv w hw hvw =>
        ih v hv (isDataItems_iff.mp ha v hv) (isDataItems_iff.mp hb w hw) hvw
    | builtin => simp [isData] at hb
    | _ => simp [read, toJs] at h
  | obj r members ih =>
    cases b with
    | obj r' members' =>
      rw [read_obj, read_obj, Doc.obj.injEq] at h
      refine takenFor_obj.mpr ⟨Record.keys_length_eq fun key => ?_, fun key v hv => .inl ?_⟩
      · have hsome := congrArg Option.isSome (congrFun h key)
        rwa [Option.isSome_map, Option.isSome_map] at hsome
      · have hkey := congrFun h key
        simp only [hv, Option.map_some] at hkey
        obtain ⟨w, hw, hread⟩ := Option.map_eq_some_iff.mp hkey.symm
        have hmem := Record.mem_of_get hv
        exact ⟨w, hw, ih _ hmem (isDataMembers_iff.mp ha _ hmem)
          (isDataMembers_iff.mp hb _ (Record.mem_of_get hw)) hread.symm⟩
    | builtin => simp [isData] at hb
    | _ => simp [read, toJs] at h

end T3x.Semantic
