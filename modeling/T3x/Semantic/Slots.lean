import T3x.Semantic.Forest

/-!
# Slot values and their comparison

Slots hold JSON-like values whose arrays and objects have identities: two of
them are one object when they agree in their identities and in all their parts.
The comparison takes one object for equal without looking into it and gives up
below a depth. Names that an object inherits are found by `in` and by reading,
though they are not its own.
-/

namespace T3x.Semantic

open Js

/-- A slot value. Arrays and objects carry their identity; `builtin` stands for
what an ordinary object has under an inherited name. -/
inductive SlotValue where
  | null
  | bool (b : Bool)
  | num (n : JsNumber)
  | str (s : JsString)
  | arr (ref : ℕ) (items : List SlotValue)
  | obj (ref : ℕ) (members : List (JsString × SlotValue))
  | builtin (name : JsString)

namespace SlotValue

mutual

/-- Whether two values agree in everything, identities included. -/
def beq : SlotValue → SlotValue → Bool
  | .null, .null => true
  | .bool a, .bool b => decide (a = b)
  | .num a, .num b => decide (a = b)
  | .str a, .str b => decide (a = b)
  | .arr r xs, .arr r' ys => decide (r = r') && beqItems xs ys
  | .obj r m, .obj r' m' => decide (r = r') && beqMembers m m'
  | .builtin a, .builtin b => decide (a = b)
  | _, _ => false

/-- Whether two lists of items agree. -/
def beqItems : List SlotValue → List SlotValue → Bool
  | [], [] => true
  | x :: xs, y :: ys => beq x y && beqItems xs ys
  | _, _ => false

/-- Whether two lists of members agree. -/
def beqMembers : List (JsString × SlotValue) → List (JsString × SlotValue) → Bool
  | [], [] => true
  | (k, x) :: m, (k', y) :: m' => decide (k = k') && beq x y && beqMembers m m'
  | _, _ => false

end

mutual

/-- The test decides equality. -/
theorem beq_iff : ∀ a b : SlotValue, beq a b = true ↔ a = b
  | .null, b => by cases b <;> simp [beq]
  | .bool _, b => by cases b <;> simp [beq]
  | .num _, b => by cases b <;> simp [beq]
  | .str _, b => by cases b <;> simp [beq]
  | .arr r xs, b => by cases b <;> simp [beq, beqItems_iff xs]
  | .obj r m, b => by cases b <;> simp [beq, beqMembers_iff m]
  | .builtin _, b => by cases b <;> simp [beq]

/-- The test decides equality of lists of items. -/
theorem beqItems_iff : ∀ xs ys : List SlotValue, beqItems xs ys = true ↔ xs = ys
  | [], ys => by cases ys <;> simp [beqItems]
  | x :: xs, ys => by cases ys <;> simp [beqItems, beq_iff x, beqItems_iff xs]

/-- The test decides equality of lists of members. -/
theorem beqMembers_iff :
    ∀ m m' : List (JsString × SlotValue), beqMembers m m' = true ↔ m = m'
  | [], m' => by cases m' <;> simp [beqMembers]
  | (k, x) :: m, m' => by
    rcases m' with _ | ⟨⟨k', y⟩, m'⟩
    · simp [beqMembers]
    · simp [beqMembers, beq_iff x, beqMembers_iff m]

end

instance : DecidableEq SlotValue := fun a b => decidable_of_iff _ (beq_iff a b)

/-- `a === b`: equal scalars, or one object. -/
def strictEq : SlotValue → SlotValue → Bool
  | .num x, .num y => x.strictEq y
  | a, b => decide (a = b)

end SlotValue

/-- `slots[key]`: an own value, or an inherited one. -/
def readSlot (slots : Record SlotValue) (key : JsString) : Option SlotValue :=
  match Record.get slots key with
  | some value => some value
  | none => if key ∈ inheritedNames then some (.builtin key) else none

/-- `MAX_DEPTH`. -/
def maxDepth : ℕ := 10

/-- Whether the members of an object pass their tests against another object: as
many names, and every tested name in the other, inherited ones included. -/
def everyMember (tests : Record (SlotValue → ℕ → Bool)) (members : Record SlotValue)
    (depth : ℕ) : Bool :=
  decide ((Record.keys tests).length = (Record.keys members).length) &&
    (Record.entries tests).all fun e =>
      match readSlot members e.1 with
      | some value => e.2 value depth
      | none => false

mutual

/-- `deepEqual(a, b, depth)`. What has no own names, the prototype that every
object inherits, equals an object without own names. -/
def deepEqual : SlotValue → SlotValue → ℕ → Bool
  | .arr r xs, b, depth => decide (depth ≤ maxDepth) &&
    (SlotValue.strictEq (.arr r xs) b ||
      match b with
      | .arr _ ys => decide (xs.length = ys.length) && everyItem xs ys (depth + 1)
      | _ => false)
  | .obj r m, b, depth => decide (depth ≤ maxDepth) &&
    (SlotValue.strictEq (.obj r m) b ||
      match b with
      | .obj _ m' => everyMember (memberTests m) m' (depth + 1)
      | .builtin name => decide (name = Record.protoName ∧ Record.keys m = [])
      | _ => false)
  | .builtin name, b, depth => decide (depth ≤ maxDepth) &&
    (SlotValue.strictEq (.builtin name) b ||
      match b with
      | .obj _ m' => decide (name = Record.protoName ∧ Record.keys m' = [])
      | _ => false)
  | a, b, depth => decide (depth ≤ maxDepth) && SlotValue.strictEq a b

/-- Whether the items of two arrays are equal. -/
def everyItem : List SlotValue → List SlotValue → ℕ → Bool
  | [], _, _ => true
  | x :: xs, y :: ys, depth => deepEqual x y depth && everyItem xs ys depth
  | _ :: _, [], _ => false

/-- The comparisons of the members of an object. -/
def memberTests : List (JsString × SlotValue) → Record (SlotValue → ℕ → Bool)
  | [] => []
  | (key, value) :: members => (key, deepEqual value) :: memberTests members

end

/-- `deepEqual(a, b)` where either may be `undefined`. -/
def deepEqualOptional : Option SlotValue → Option SlotValue → Bool
  | none, none => true
  | some a, some b => deepEqual a b 0
  | _, _ => false

/-! ## What slot values read as -/

namespace SlotValue

mutual

/-- A slot value without the identities of its parts. -/
def toJs : SlotValue → JsValue
  | .null => .null
  | .bool b => .bool b
  | .num n => .num n
  | .str s => .str s
  | .arr _ items => .arr (itemsToJs items)
  | .obj _ members => .obj (membersToJs members)
  | .builtin _ => .null

/-- The items of an array without identities. -/
def itemsToJs : List SlotValue → List JsValue
  | [] => []
  | v :: items => v.toJs :: itemsToJs items

/-- The members of an object without identities. -/
def membersToJs : List (JsString × SlotValue) → List (JsString × JsValue)
  | [] => []
  | (k, v) :: members => (k, v.toJs) :: membersToJs members

end

mutual

/-- A value of the type `SlotValue` of the source in which no object has a member
named as the prototype accessor. -/
def plain : SlotValue → Bool
  | .builtin _ => false
  | .arr _ items => plainItems items
  | .obj _ members => plainMembers members
  | _ => true

/-- The items of an array are plain. -/
def plainItems : List SlotValue → Bool
  | [] => true
  | v :: items => v.plain && plainItems items

/-- The members of an object are plain and none is named as the prototype accessor. -/
def plainMembers : List (JsString × SlotValue) → Bool
  | [] => true
  | (k, v) :: members => decide (k ≠ Record.protoName) && v.plain && plainMembers members

end

mutual

/-- How deep the arrays and objects of a value are nested. -/
def nesting : SlotValue → ℕ
  | .arr _ items => nestingItems items + 1
  | .obj _ members => nestingMembers members + 1
  | _ => 0

/-- How deep the items of an array are nested. -/
def nestingItems : List SlotValue → ℕ
  | [] => 0
  | v :: items => max v.nesting (nestingItems items)

/-- How deep the members of an object are nested. -/
def nestingMembers : List (JsString × SlotValue) → ℕ
  | [] => 0
  | (_, v) :: members => max v.nesting (nestingMembers members)

end

/-- What a slot value reads as: equal for values that differ in identities, in the
order of members and in the sign of zero alone. -/
def read (v : SlotValue) : Doc := v.toJs.denote JsNumber.dropZeroSign

/-- The items are read one by one. -/
theorem itemsToJs_eq_map (items : List SlotValue) : itemsToJs items = items.map toJs := by
  induction items with
  | nil => rfl
  | cons v items ih => rw [itemsToJs, ih, List.map_cons]

/-- The members are read one by one. -/
theorem membersToJs_eq_mapValues (members : Record SlotValue) :
    membersToJs members = Record.mapValues toJs members := by
  induction members with
  | nil => rfl
  | cons e members ih =>
    obtain ⟨k, v⟩ := e
    rw [membersToJs, ih]
    rfl

/-- What an array reads as. -/
theorem read_arr (r : ℕ) (items : List SlotValue) : read (.arr r items) = .arr (items.map read) := by
  rw [read, toJs, itemsToJs_eq_map, JsValue.denote_arr, List.map_map]
  rfl

/-- What an object reads as. -/
theorem read_obj (r : ℕ) (members : Record SlotValue) :
    read (.obj r members) = .obj fun key => (Record.get members key).map read := by
  rw [read, toJs, membersToJs_eq_mapValues, JsValue.denote_obj]
  congr 1
  funext key
  rw [Record.get_mapValues, Option.map_map]
  rfl

/-- The items of an array are plain exactly when each is. -/
theorem plainItems_iff {items : List SlotValue} :
    plainItems items = true ↔ ∀ v ∈ items, v.plain = true := by
  induction items with
  | nil => simp [plainItems]
  | cons v items ih => simp [plainItems, ih]

/-- The members of an object are plain exactly when each is and none is named as the
prototype accessor. -/
theorem plainMembers_iff {members : Record SlotValue} :
    plainMembers members = true ↔
      ∀ e ∈ members, e.1 ≠ Record.protoName ∧ e.2.plain = true := by
  induction members with
  | nil => simp [plainMembers]
  | cons e members ih =>
    obtain ⟨k, v⟩ := e
    simp [plainMembers, ih, and_assoc]

/-- The items of an array are nested no deeper than all of them. -/
theorem nesting_le_items {items : List SlotValue} {v : SlotValue} (h : v ∈ items) :
    v.nesting ≤ nestingItems items := by
  induction items with
  | nil => simp at h
  | cons w items ih =>
    rw [nestingItems]
    rcases List.mem_cons.mp h with rfl | h
    · exact le_max_left _ _
    · exact (ih h).trans (le_max_right _ _)

/-- The members of an object are nested no deeper than all of them. -/
theorem nesting_le_members {members : Record SlotValue} {e : JsString × SlotValue}
    (h : e ∈ members) : e.2.nesting ≤ nestingMembers members := by
  induction members with
  | nil => simp at h
  | cons e' members ih =>
    obtain ⟨k, w⟩ := e'
    rw [nestingMembers]
    rcases List.mem_cons.mp h with rfl | h
    · exact le_max_left _ _
    · exact (ih h).trans (le_max_right _ _)

mutual

/-- The induction over slot values, from the items and the members. -/
@[elab_as_elim] theorem induct {P : SlotValue → Prop} (scalar : ∀ v, nesting v = 0 → P v)
    (arr : ∀ r items, (∀ v ∈ items, P v) → P (.arr r items))
    (obj : ∀ r (members : Record SlotValue), (∀ e ∈ members, P e.2) → P (.obj r members)) :
    ∀ value, P value
  | .null => scalar _ rfl
  | .bool _ => scalar _ rfl
  | .num _ => scalar _ rfl
  | .str _ => scalar _ rfl
  | .builtin _ => scalar _ rfl
  | .arr r items => arr r items (induct_items scalar arr obj items)
  | .obj r members => obj r members (induct_members scalar arr obj members)

/-- The induction over the items of an array. -/
theorem induct_items {P : SlotValue → Prop} (scalar : ∀ v, nesting v = 0 → P v)
    (arr : ∀ r items, (∀ v ∈ items, P v) → P (.arr r items))
    (obj : ∀ r (members : Record SlotValue), (∀ e ∈ members, P e.2) → P (.obj r members)) :
    ∀ items : List SlotValue, ∀ v ∈ items, P v
  | [], _, h => absurd h List.not_mem_nil
  | w :: items, v, h => by
    rcases List.mem_cons.mp h with h | h
    · exact h ▸ induct scalar arr obj w
    · exact induct_items scalar arr obj items v h

/-- The induction over the members of an object. -/
theorem induct_members {P : SlotValue → Prop} (scalar : ∀ v, nesting v = 0 → P v)
    (arr : ∀ r items, (∀ v ∈ items, P v) → P (.arr r items))
    (obj : ∀ r (members : Record SlotValue), (∀ e ∈ members, P e.2) → P (.obj r members)) :
    ∀ members : List (JsString × SlotValue), ∀ e ∈ members, P e.2
  | [], _, h => absurd h List.not_mem_nil
  | (k, w) :: members, e, h => by
    rcases List.mem_cons.mp h with h | h
    · exact h ▸ induct scalar arr obj w
    · exact induct_members scalar arr obj members e h

end

/-- A value equals itself as one object. -/
theorem strictEq_self (v : SlotValue) : strictEq v v = true := by
  cases v <;> simp [strictEq, JsNumber.strictEq]

/-- Values that are strictly equal read alike. -/
theorem read_of_strictEq {a b : SlotValue} (h : strictEq a b = true) : read a = read b := by
  unfold strictEq at h
  split at h
  · rename_i x y
    rw [read, read, toJs, toJs, JsValue.denote_num, JsValue.denote_num]
    exact congrArg Doc.num (of_decide_eq_true h)
  · exact congrArg read (of_decide_eq_true h)

end SlotValue

/-! ## The comparison decides equality of readings down to its depth -/

/-- The comparisons of the members are the members mapped. -/
theorem memberTests_eq_mapValues (members : Record SlotValue) :
    memberTests members = Record.mapValues deepEqual members := by
  induction members with
  | nil => rfl
  | cons e members ih =>
    obtain ⟨k, v⟩ := e
    rw [memberTests, ih]
    rfl

/-- No value of the source's type equals what is inherited, the prototype excepted. -/
theorem deepEqual_builtin {v : SlotValue} {name : JsString} {depth : ℕ} (hv : v.plain = true)
    (hname : name ≠ Record.protoName) : deepEqual v (.builtin name) depth = false := by
  cases v <;> simp_all [deepEqual, SlotValue.strictEq, SlotValue.plain]

/-- What a plain member equals under a name is own. -/
theorem readSlot_deepEqual {slots : Record SlotValue} {key : JsString} {v w : SlotValue}
    {depth : ℕ} (hv : v.plain = true) (hkey : key ≠ Record.protoName)
    (hread : readSlot slots key = some w) (heq : deepEqual v w depth = true) :
    Record.get slots key = some w := by
  unfold readSlot at hread
  cases hget : Record.get slots key with
  | some w' => simpa [hget] using hread
  | none =>
    simp only [hget] at hread
    split_ifs at hread
    obtain rfl := Option.some.inj hread
    rw [deepEqual_builtin hv hkey] at heq
    simp at heq

/-- Every test of the members of an object is a test of its own members. -/
theorem everyMember_iff {m m' : Record SlotValue} {depth : ℕ}
    (hm : SlotValue.plainMembers m = true) :
    everyMember (memberTests m) m' depth = true ↔
      (Record.keys m).length = (Record.keys m').length ∧
      ∀ key v, Record.get m key = some v →
        ∃ w, Record.get m' key = some w ∧ deepEqual v w depth = true := by
  unfold everyMember
  rw [memberTests_eq_mapValues, Bool.and_eq_true, decide_eq_true_eq, Record.keys_mapValues,
    Record.entries_mapValues]
  refine and_congr_right fun _ => ?_
  simp only [Record.mapValues, List.all_map, List.all_eq_true, Function.comp_apply, Prod.forall,
    Record.mem_entries]
  refine forall_congr' fun key => forall_congr' fun v => forall_congr' fun hget => ?_
  obtain ⟨hkey, hv⟩ := SlotValue.plainMembers_iff.mp hm _ (Record.mem_of_get hget)
  constructor
  · intro h
    cases hread : readSlot m' key with
    | none => simp [hread] at h
    | some w =>
      simp only [hread] at h
      exact ⟨w, readSlot_deepEqual hv hkey hread h, h⟩
  · rintro ⟨w, hw, heq⟩
    simp only [readSlot, hw]
    exact heq

/-- Items that are equal one by one read alike. -/
theorem read_of_everyItem {items items' : List SlotValue} {depth : ℕ}
    (hlen : items.length = items'.length) (hevery : everyItem items items' depth = true)
    (hitems : ∀ v ∈ items, ∀ w ∈ items', deepEqual v w depth = true → v.read = w.read) :
    items.map SlotValue.read = items'.map SlotValue.read := by
  induction items generalizing items' with
  | nil => cases items' <;> simp_all
  | cons v items ih =>
    cases items' with
    | nil => simp at hlen
    | cons w items' =>
      rw [everyItem, Bool.and_eq_true] at hevery
      rw [List.map_cons, List.map_cons, hitems v List.mem_cons_self w List.mem_cons_self hevery.1,
        ih (by simpa using hlen) hevery.2 fun v hv w hw =>
          hitems v (List.mem_cons_of_mem _ hv) w (List.mem_cons_of_mem _ hw)]

/-- Members that pass the tests of an object's members read alike. -/
theorem read_of_everyMember {m m' : Record SlotValue} {depth : ℕ}
    (hm : SlotValue.plainMembers m = true) (hm' : SlotValue.plainMembers m' = true)
    (hevery : everyMember (memberTests m) m' depth = true)
    (hmembers : ∀ e ∈ m, ∀ w : SlotValue, w.plain = true → deepEqual e.2 w depth = true →
      e.2.read = w.read) (key : JsString) :
    (Record.get m key).map SlotValue.read = (Record.get m' key).map SlotValue.read := by
  obtain ⟨hlen, hget⟩ := (everyMember_iff hm).mp hevery
  cases hv : Record.get m key with
  | none =>
    have hsub : ∀ k, Record.has m k = true → Record.has m' k = true := by
      intro k hk
      obtain ⟨v, hv⟩ := Record.has_eq_true.mp hk
      obtain ⟨w, hw, -⟩ := hget k v hv
      exact Record.has_eq_true.mpr ⟨w, hw⟩
    rw [Record.get_eq_none_of_subset hlen hsub hv]
  | some v =>
    obtain ⟨w, hw, heq⟩ := hget key v hv
    have hplain := (SlotValue.plainMembers_iff.mp hm' _ (Record.mem_of_get hw)).2
    rw [hw, Option.map_some, Option.map_some,
      hmembers _ (Record.mem_of_get hv) w hplain heq]

/-- Values that compare equal read alike. -/
theorem deepEqual_sound {a b : SlotValue} {depth : ℕ} (ha : a.plain = true) (hb : b.plain = true)
    (h : deepEqual a b depth = true) : a.read = b.read := by
  induction a using SlotValue.induct generalizing b depth with
  | scalar v hnesting =>
    cases v with
    | arr => simp [SlotValue.nesting] at hnesting
    | obj => simp [SlotValue.nesting] at hnesting
    | builtin => simp [SlotValue.plain] at ha
    | _ =>
      simp only [deepEqual, Bool.and_eq_true] at h
      exact SlotValue.read_of_strictEq h.2
  | arr r items ih =>
    simp only [deepEqual, Bool.and_eq_true, Bool.or_eq_true] at h
    rcases h.2 with hsame | hparts
    · exact SlotValue.read_of_strictEq hsame
    cases b with
    | arr r' items' =>
      simp only [Bool.and_eq_true, decide_eq_true_eq] at hparts
      rw [SlotValue.read_arr, SlotValue.read_arr]
      refine congrArg Doc.arr (read_of_everyItem hparts.1 hparts.2 fun v hv w hw => ?_)
      exact ih v hv (SlotValue.plainItems_iff.mp ha v hv) (SlotValue.plainItems_iff.mp hb w hw)
    | _ => simp at hparts
  | obj r members ih =>
    simp only [deepEqual, Bool.and_eq_true, Bool.or_eq_true] at h
    rcases h.2 with hsame | hparts
    · exact SlotValue.read_of_strictEq hsame
    cases b with
    | obj r' members' =>
      rw [SlotValue.read_obj, SlotValue.read_obj]
      refine congrArg Doc.obj (funext (read_of_everyMember ha hb hparts fun e he w hw heq => ?_))
      exact ih e he (SlotValue.plainMembers_iff.mp ha e he).2 hw heq
    | builtin => simp [SlotValue.plain] at hb
    | _ => simp at hparts

/-- A value compares equal to itself. -/
theorem deepEqual_self (v : SlotValue) {depth : ℕ} (hdepth : depth ≤ maxDepth) :
    deepEqual v v depth = true := by
  cases v <;> simp [deepEqual, hdepth, SlotValue.strictEq_self]

/-- Items that read alike are equal one by one. -/
theorem everyItem_of_read {items items' : List SlotValue} {depth : ℕ}
    (hread : items.map SlotValue.read = items'.map SlotValue.read)
    (hitems : ∀ v ∈ items, ∀ w ∈ items', v.read = w.read → deepEqual v w depth = true) :
    everyItem items items' depth = true := by
  induction items generalizing items' with
  | nil => rfl
  | cons v items ih =>
    cases items' with
    | nil => simp at hread
    | cons w items' =>
      rw [List.map_cons, List.map_cons, List.cons.injEq] at hread
      rw [everyItem, Bool.and_eq_true]
      exact ⟨hitems v List.mem_cons_self w List.mem_cons_self hread.1,
        ih hread.2 fun v hv w hw =>
          hitems v (List.mem_cons_of_mem _ hv) w (List.mem_cons_of_mem _ hw)⟩

/-- Members that read alike pass the tests of each other's members. -/
theorem everyMember_of_read {m m' : Record SlotValue} {depth : ℕ}
    (hm : SlotValue.plainMembers m = true) (hm' : SlotValue.plainMembers m' = true)
    (hread : ∀ key, (Record.get m key).map SlotValue.read = (Record.get m' key).map SlotValue.read)
    (hmembers : ∀ e ∈ m, ∀ w : SlotValue, w.plain = true → e.2.read = w.read →
      deepEqual e.2 w depth = true) :
    everyMember (memberTests m) m' depth = true := by
  refine (everyMember_iff hm).mpr ⟨Record.keys_length_eq fun key => ?_, fun key v hv => ?_⟩
  · have hsome := congrArg Option.isSome (hread key)
    rwa [Option.isSome_map, Option.isSome_map] at hsome
  · have hkey := hread key
    rw [hv, Option.map_some] at hkey
    obtain ⟨w, hw, heq⟩ := Option.map_eq_some_iff.mp hkey.symm
    have hplain := (SlotValue.plainMembers_iff.mp hm' _ (Record.mem_of_get hw)).2
    exact ⟨w, hw, hmembers _ (Record.mem_of_get hv) w hplain heq.symm⟩

/-- Scalars that read alike are strictly equal. -/
theorem SlotValue.strictEq_of_read {a b : SlotValue} (ha : a.plain = true) (hb : b.plain = true)
    (hnesting : a.nesting = 0) (h : a.read = b.read) : SlotValue.strictEq a b = true := by
  cases a <;> cases b <;>
    simp_all [SlotValue.read, SlotValue.toJs, SlotValue.plain, SlotValue.nesting,
      SlotValue.strictEq, JsNumber.strictEq]

/-- Values that read alike compare equal when they are not nested too deep. -/
theorem deepEqual_complete {a b : SlotValue} {depth : ℕ} (ha : a.plain = true)
    (hb : b.plain = true) (hdepth : a.nesting + depth ≤ maxDepth) (h : a.read = b.read) :
    deepEqual a b depth = true := by
  induction a using SlotValue.induct generalizing b depth with
  | scalar v hnesting =>
    have hstrict := SlotValue.strictEq_of_read ha hb hnesting h
    have hle : depth ≤ maxDepth := by omega
    cases v with
    | arr => simp [SlotValue.nesting] at hnesting
    | obj => simp [SlotValue.nesting] at hnesting
    | _ => simp only [deepEqual, hstrict, decide_eq_true hle, Bool.true_and, Bool.true_or]
  | arr r items ih =>
    rw [SlotValue.nesting] at hdepth
    cases b with
    | arr r' items' =>
      rw [SlotValue.read_arr, SlotValue.read_arr, Doc.arr.injEq] at h
      have hlen : items.length = items'.length := by simpa using congrArg List.length h
      have hevery : everyItem items items' (depth + 1) = true := by
        refine everyItem_of_read h fun v hv w hw => ?_
        have hle := SlotValue.nesting_le_items hv
        exact ih v hv (SlotValue.plainItems_iff.mp ha v hv) (SlotValue.plainItems_iff.mp hb w hw)
          (by omega)
      simp only [deepEqual, hevery, decide_eq_true hlen, Bool.and_true, Bool.or_true]
      exact decide_eq_true (by omega)
    | builtin => simp [SlotValue.plain] at hb
    | _ => simp [SlotValue.read, SlotValue.toJs] at h
  | obj r members ih =>
    rw [SlotValue.nesting] at hdepth
    cases b with
    | obj r' members' =>
      rw [SlotValue.read_obj, SlotValue.read_obj, Doc.obj.injEq] at h
      have hevery : everyMember (memberTests members) members' (depth + 1) = true := by
        refine everyMember_of_read ha hb (congrFun h) fun e he w hw hread => ?_
        have hle := SlotValue.nesting_le_members he
        exact ih e he (SlotValue.plainMembers_iff.mp ha e he).2 hw (by omega) hread
      simp only [deepEqual, hevery, Bool.or_true, Bool.and_true]
      exact decide_eq_true (by omega)
    | builtin => simp [SlotValue.plain] at hb
    | _ => simp [SlotValue.read, SlotValue.toJs] at h

end T3x.Semantic
