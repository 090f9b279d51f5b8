import T3x.Js.Value

/-!
# Values up to the order of members

The extensional reading of a value keeps an object as a function from names to
members, so that two values have one reading exactly when they differ in the
order of members alone. The reading takes a function on numbers: the identity
tells the two zeros apart, dropping the sign of zero does not.
-/

namespace Js

/-- A value whose objects are functions from names to members. -/
inductive Doc where
  | null
  | bool (b : Bool)
  | num (n : JsNumber)
  | str (s : JsString)
  | arr (items : List Doc)
  | obj (members : JsString → Option Doc)

namespace JsValue

/-- The extensional reading of a value, numbers being read through `f`. -/
def denote (f : JsNumber → JsNumber) : JsValue → Doc :=
  fold
    { null := .null
      bool := .bool
      num := fun n => .num (f n)
      str := .str
      arr := .arr
      obj := fun members => .obj (Record.get members) }

variable {f : JsNumber → JsNumber} {a b : JsValue}

/-- The reading of an array. -/
@[simp] theorem denote_arr (items : List JsValue) :
    denote f (.arr items) = .arr (items.map (denote f)) :=
  fold_arr _ items

/-- The reading of an object. -/
@[simp] theorem denote_obj (members : Record JsValue) :
    denote f (.obj members) = .obj fun key => (Record.get members key).map (denote f) := by
  refine (fold_obj _ members).trans ?_
  exact congrArg Doc.obj (funext fun key => Record.get_mapValues _ members key)

/-- The reading of `null`. -/
@[simp] theorem denote_null : denote f .null = .null := rfl

/-- The reading of a boolean. -/
@[simp] theorem denote_bool (x : Bool) : denote f (.bool x) = .bool x := rfl

/-- The reading of a number. -/
@[simp] theorem denote_num (n : JsNumber) : denote f (.num n) = .num (f n) := rfl

/-- The reading of a string. -/
@[simp] theorem denote_str (s : JsString) : denote f (.str s) = .str s := rfl

/-- Two objects have one reading exactly when every name reads alike. -/
theorem denote_obj_eq_iff {m m' : Record JsValue} :
    denote f (.obj m) = denote f (.obj m') ↔
      ∀ key, (Record.get m key).map (denote f) = (Record.get m' key).map (denote f) := by
  rw [denote_obj, denote_obj, Doc.obj.injEq]
  exact funext_iff

/-- A fold that reads numbers through `f` and members by name respects the
extensional reading. -/
theorem fold_congr {T : Type} {alg : Algebra T}
    (hnum : ∀ x y, f x = f y → alg.num x = alg.num y)
    (hobj : ∀ m m' : Record T, (∀ key, Record.get m key = Record.get m' key) →
      alg.obj m = alg.obj m')
    (h : denote f a = denote f b) : fold alg a = fold alg b := by
  induction a using induct generalizing b with
  | null => cases b <;> simp_all [fold]
  | bool x => cases b <;> simp_all [fold]
  | num n =>
    rcases b with _ | _ | n' | _ | _ | _ <;> try simp at h
    exact hnum n n' h
  | str s => cases b <;> simp_all [fold]
  | arr items ih =>
    rcases b with _ | _ | _ | _ | items' | _ <;> try simp at h
    rw [fold_arr, fold_arr]
    congr 1
    induction items generalizing items' with
    | nil => simp_all
    | cons x items ihItems =>
      rcases items' with _ | ⟨y, items'⟩
      · simp at h
      · simp only [List.map_cons, List.cons.injEq] at h ⊢
        exact ⟨ih x List.mem_cons_self h.1,
          ihItems (fun v hv => ih v (List.mem_cons_of_mem _ hv)) items' h.2⟩
  | obj m ih =>
    rcases b with _ | _ | _ | _ | _ | m' <;> try simp at h
    rw [fold_obj, fold_obj]
    apply hobj
    intro key
    have hkey := congrFun h key
    rw [Record.get_mapValues, Record.get_mapValues]
    cases hm : Record.get m key with
    | none => simp_all [eq_comm]
    | some v =>
      rw [hm] at hkey
      obtain ⟨w, hw, hvw⟩ := Option.map_eq_some_iff.mp hkey.symm
      rw [hw]
      exact congrArg some (ih _ (Record.mem_of_get hm) hvw.symm)

/-- Reading numbers more coarsely keeps equal readings equal. -/
theorem denote_mono {g : JsNumber → JsNumber} (hg : ∀ x y, f x = f y → g x = g y)
    (h : denote f a = denote f b) : denote g a = denote g b := by
  refine fold_congr (fun x y hxy => congrArg Doc.num (hg x y hxy)) ?_ h
  intro m m' hm
  exact congrArg Doc.obj (funext hm)

/-! ## The equality test -/

/-- Whether the items pass their tests, one test each. -/
def passAll : List (JsValue → Bool) → List JsValue → Bool
  | [], [] => true
  | test :: tests, item :: items => test item && passAll tests items
  | _, _ => false

/-- Whether the members pass their tests: as many names, and every tested name
is a member that passes. -/
def passMembers (tests : Record (JsValue → Bool)) (members : Record JsValue) : Bool :=
  decide ((Record.keys tests).length = (Record.keys members).length) &&
    (Record.entries tests).all fun e =>
      match Record.get members e.1 with
      | some value => e.2 value
      | none => false

/-- Whether two values have one extensional reading. -/
def sameDoc (f : JsNumber → JsNumber) : JsValue → JsValue → Bool :=
  fold
    { null := fun b => match b with
        | .null => true
        | _ => false
      bool := fun x b => match b with
        | .bool y => decide (x = y)
        | _ => false
      num := fun x b => match b with
        | .num y => decide (f x = f y)
        | _ => false
      str := fun s b => match b with
        | .str t => decide (s = t)
        | _ => false
      arr := fun tests b => match b with
        | .arr items => passAll tests items
        | _ => false
      obj := fun tests b => match b with
        | .obj members => passMembers tests members
        | _ => false }

/-- The items pass exactly when their readings are equal. -/
theorem passAll_iff {items items' : List JsValue}
    (hitems : ∀ v ∈ items, ∀ w, sameDoc f v w = true ↔ denote f v = denote f w) :
    passAll (items.map (sameDoc f)) items' = true ↔
      items.map (denote f) = items'.map (denote f) := by
  induction items generalizing items' with
  | nil => cases items' <;> simp [passAll]
  | cons v items ih =>
    cases items' with
    | nil => simp [passAll]
    | cons w items' =>
      simp only [List.map_cons, passAll, Bool.and_eq_true, List.cons.injEq]
      rw [hitems v List.mem_cons_self, ih fun v hv => hitems v (List.mem_cons_of_mem _ hv)]

/-- Two objects with as many names, the members of the first being members of
the second with one reading, read alike. -/
theorem passMembers_iff {m m' : Record JsValue}
    (hmembers : ∀ e ∈ m, ∀ w, sameDoc f e.2 w = true ↔ denote f e.2 = denote f w) :
    passMembers (Record.mapValues (sameDoc f) m) m' = true ↔
      ∀ key, (Record.get m key).map (denote f) = (Record.get m' key).map (denote f) := by
  have hall : ((Record.entries (Record.mapValues (sameDoc f) m)).all fun e =>
      match Record.get m' e.1 with
      | some value => e.2 value
      | none => false) = true ↔
      ∀ key v, Record.get m key = some v →
        (Record.get m' key).map (denote f) = some (denote f v) := by
    rw [Record.entries_mapValues]
    simp only [Record.mapValues, List.all_map, List.all_eq_true, Function.comp_apply, Prod.forall]
    refine forall_congr' fun key => forall_congr' fun v => ?_
    rw [Record.mem_entries]
    refine forall_congr' fun hv => ?_
    cases hw : Record.get m' key with
    | none => simp
    | some w =>
      rw [Option.map_some, Option.some.injEq]
      exact (hmembers _ (Record.mem_of_get hv) w).trans eq_comm
  unfold passMembers
  rw [Bool.and_eq_true, decide_eq_true_eq, hall, Record.keys_mapValues]
  constructor
  · rintro ⟨hlen, hget⟩ key
    cases hv : Record.get m key with
    | some v => rw [hget key v hv, Option.map_some]
    | none =>
      have hsub : ∀ k, Record.has m k = true → Record.has m' k = true := by
        intro k hk
        obtain ⟨v, hv⟩ := Record.has_eq_true.mp hk
        obtain ⟨w, hw, -⟩ := Option.map_eq_some_iff.mp (hget k v hv)
        exact Record.has_eq_true.mpr ⟨w, hw⟩
      rw [Record.get_eq_none_of_subset hlen hsub hv]
  · intro hget
    refine ⟨Record.keys_length_eq fun key => ?_,
      fun key v hv => by rw [← hget, hv, Option.map_some]⟩
    have hsome := congrArg Option.isSome (hget key)
    rwa [Option.isSome_map, Option.isSome_map] at hsome

/-- The equality test decides equality of the extensional readings. -/
theorem sameDoc_iff : sameDoc f a b = true ↔ denote f a = denote f b := by
  induction a using induct generalizing b with
  | null => cases b <;> simp [sameDoc, fold]
  | bool x => cases b <;> simp [sameDoc, fold]
  | num n => cases b <;> simp [sameDoc, fold]
  | str s => cases b <;> simp [sameDoc, fold]
  | arr items ih =>
    unfold sameDoc
    rw [fold_arr]
    cases b with
    | arr items' =>
      rw [denote_arr, denote_arr, Doc.arr.injEq]
      exact passAll_iff fun v hv w => ih v hv
    | _ => simp
  | obj m ih =>
    unfold sameDoc
    rw [fold_obj]
    cases b with
    | obj m' =>
      rw [denote_obj_eq_iff]
      exact passMembers_iff fun e he w => ih e he
    | _ => simp

instance : Decidable (denote f a = denote f b) := decidable_of_iff _ sameDoc_iff

/-! ## Copies through JSON text -/

/-- `JSON.parse(JSON.stringify(value))`: a copy in which no zero is negative. -/
def jsonClone : JsValue → JsValue :=
  fold
    { null := .null
      bool := .bool
      num := fun n => .num n.dropZeroSign
      str := .str
      arr := .arr
      obj := fun members => .obj (Record.fromEntries (Record.entries members)) }

/-- A copy through JSON text equals its original up to the sign of zero and the
order of members. -/
theorem denote_jsonClone (value : JsValue) :
    denote JsNumber.dropZeroSign (jsonClone value) = denote JsNumber.dropZeroSign value := by
  induction value using induct with
  | null => rfl
  | bool b => rfl
  | num n => simp [jsonClone, fold]
  | str s => rfl
  | arr items ih =>
    unfold jsonClone
    rw [fold_arr, denote_arr, denote_arr, List.map_map]
    exact congrArg Doc.arr (List.map_congr_left ih)
  | obj m ih =>
    unfold jsonClone
    rw [fold_obj, denote_obj_eq_iff]
    intro key
    rw [Record.get_fromEntries (Record.keys_nodup _), Record.get_entries, Record.get_mapValues]
    cases hv : Record.get m key with
    | none => rfl
    | some v => exact congrArg some (ih _ (Record.mem_of_get hv))

end JsValue

end Js
