import T3x.Js.Token
import T3x.Js.Order

/-!
# The grammar of JSON texts

The JSON grammar over code units, relating a text to the tree that it spells.
A tree is strict when no object has a name twice, no string a lone surrogate
and no number overflows; a strict tree denotes one value. The text that prints
a value spells a strict tree that denotes the value.
-/

namespace Js

/-- What a JSON text spells: numbers as they are written, strings decoded. -/
inductive JsonTree where
  | null
  | bool (b : Bool)
  | num (text : JsString)
  | str (s : JsString)
  | arr (items : List JsonTree)
  | obj (members : List (JsString × JsonTree))

/-- Whether a code unit is insignificant whitespace. -/
def isBlank (u : UInt16) : Bool :=
  u == unit ' ' || u == unit '\n' || u == unit '\r' || u == unit '\t'

/-- Insignificant whitespace. -/
def IsBlanks (w : JsString) : Prop := ∀ u ∈ w, isBlank u = true

/-- A string token and the string that it denotes. -/
inductive IsString : JsString → JsString → Prop
  | intro {body s : JsString} (hbody : IsStringBody body s) :
      IsString (unit '"' :: (body ++ [unit '"'])) s

mutual

/-- A text that spells a value. -/
inductive IsValue : JsString → JsonTree → Prop
  | null : IsValue (js "null") .null
  | bool (b : Bool) : IsValue (if b then js "true" else js "false") (.bool b)
  | num {text : JsString} (h : IsNumber text) : IsValue text (.num text)
  | str {text s : JsString} (h : IsString text s) : IsValue text (.str s)
  | arr_nil {w : JsString} (hw : IsBlanks w) : IsValue (unit '[' :: (w ++ [unit ']'])) (.arr [])
  | arr {w text : JsString} {items : List JsonTree} (hw : IsBlanks w) (h : IsItems text items) :
      IsValue (unit '[' :: (w ++ text ++ [unit ']'])) (.arr items)
  | obj_nil {w : JsString} (hw : IsBlanks w) :
      IsValue (unit '\x7b' :: (w ++ [unit '\x7d'])) (.obj [])
  | obj {w text : JsString} {members : List (JsString × JsonTree)} (hw : IsBlanks w)
      (h : IsMembers text members) :
      IsValue (unit '\x7b' :: (w ++ text ++ [unit '\x7d'])) (.obj members)

/-- A text that spells the items of an array, from the first one to the bracket. -/
inductive IsItems : JsString → List JsonTree → Prop
  | last {text w : JsString} {item : JsonTree} (h : IsValue text item) (hw : IsBlanks w) :
      IsItems (text ++ w) [item]
  | more {text w w' rest : JsString} {item : JsonTree} {items : List JsonTree}
      (h : IsValue text item) (hw : IsBlanks w) (hw' : IsBlanks w') (hrest : IsItems rest items) :
      IsItems (text ++ w ++ unit ',' :: (w' ++ rest)) (item :: items)

/-- A text that spells the members of an object, from the first one to the brace. -/
inductive IsMembers : JsString → List (JsString × JsonTree) → Prop
  | last {name w w' text w'' key : JsString} {value : JsonTree} (hname : IsString name key)
      (hw : IsBlanks w) (hw' : IsBlanks w') (h : IsValue text value) (hw'' : IsBlanks w'') :
      IsMembers (name ++ w ++ unit ':' :: (w' ++ text ++ w'')) [(key, value)]
  | more {name w w' text w'' w₃ rest key : JsString} {value : JsonTree}
      {members : List (JsString × JsonTree)} (hname : IsString name key)
      (hw : IsBlanks w) (hw' : IsBlanks w') (h : IsValue text value) (hw'' : IsBlanks w'')
      (hw₃ : IsBlanks w₃) (hrest : IsMembers rest members) :
      IsMembers (name ++ w ++ unit ':' :: (w' ++ text ++ w'' ++ unit ',' :: (w₃ ++ rest)))
        ((key, value) :: members)

end

/-- A JSON text and the tree that it spells. -/
inductive IsJsonText : JsString → JsonTree → Prop
  | intro {w text w' : JsString} {tree : JsonTree} (hw : IsBlanks w) (h : IsValue text tree)
      (hw' : IsBlanks w') : IsJsonText (w ++ text ++ w') tree

namespace JsonTree

/-- A tree without duplicate names, lone surrogates and numbers that overflow. -/
inductive Strict : JsonTree → Prop
  | null : Strict .null
  | bool (b : Bool) : Strict (.bool b)
  | num {text : JsString} (h : numberOf text ≠ none) : Strict (.num text)
  | str {s : JsString} (h : isWellFormed s = true) : Strict (.str s)
  | arr {items : List JsonTree} (h : ∀ item ∈ items, Strict item) : Strict (.arr items)
  | obj {members : List (JsString × JsonTree)} (hnodup : (members.map Prod.fst).Nodup)
      (hnames : ∀ e ∈ members, isWellFormed e.1 = true) (h : ∀ e ∈ members, Strict e.2) :
      Strict (.obj members)

mutual

/-- The value that a strict tree denotes. -/
def value : JsonTree → JsValue
  | .null => .null
  | .bool b => .bool b
  | .num text => .num ((numberOf text).getD .zero)
  | .str s => .str s
  | .arr items => .arr (values items)
  | .obj members => .obj (Record.fromEntries (memberValues members))

/-- The values of the items of an array. -/
def values : List JsonTree → List JsValue
  | [] => []
  | item :: items => value item :: values items

/-- The values of the members of an object. -/
def memberValues : List (JsString × JsonTree) → List (JsString × JsValue)
  | [] => []
  | (key, item) :: members => (key, value item) :: memberValues members

end

/-- The values of items are mapped. -/
theorem values_eq_map (items : List JsonTree) : values items = items.map value := by
  induction items with
  | nil => rfl
  | cons item items ih => rw [values, ih, List.map_cons]

/-- The values of members are mapped. -/
theorem memberValues_eq_map (members : List (JsString × JsonTree)) :
    memberValues members = members.map fun e => (e.1, value e.2) := by
  induction members with
  | nil => rfl
  | cons e members ih =>
    obtain ⟨key, item⟩ := e
    rw [memberValues, ih, List.map_cons]

end JsonTree

/-! ## Printed values are spelled -/

/-- Whether no string and no name of a value has a lone surrogate. -/
def JsValue.isUnicode : JsValue → Bool :=
  JsValue.fold
    { null := true
      bool := fun _ => true
      num := fun _ => true
      str := isWellFormed
      arr := fun items => items.all id
      obj := fun members => (Record.entries members).all fun e => isWellFormed e.1 && e.2 }

/-- The strings of an array are those of its items. -/
theorem JsValue.isUnicode_arr {items : List JsValue} :
    (JsValue.arr items).isUnicode = true ↔ ∀ v ∈ items, v.isUnicode = true := by
  rw [isUnicode, fold_arr]
  simp

/-- The strings of an object are its names and those of its members. -/
theorem JsValue.isUnicode_obj {members : Record JsValue} : (JsValue.obj members).isUnicode = true ↔
    ∀ key v, Record.get members key = some v → isWellFormed key = true ∧ v.isUnicode = true := by
  rw [isUnicode, fold_obj]
  simp only [List.all_eq_true, Bool.and_eq_true, Prod.forall, Record.mem_entries,
    Record.get_mapValues, Option.map_eq_some_iff]
  exact ⟨fun h key v hv => h key _ ⟨v, hv, rfl⟩, fun h key b ⟨v, hv, hb⟩ => hb ▸ h key v hv⟩

/-- Values that are equal up to the order of members have the same strings. -/
theorem JsValue.isUnicode_congr {a b : JsValue}
    (h : a.denote JsNumber.dropZeroSign = b.denote JsNumber.dropZeroSign) :
    a.isUnicode = b.isUnicode := by
  refine fold_congr (fun _ _ _ => rfl) (fun m m' hm => ?_) h
  rw [Bool.eq_iff_iff, List.all_eq_true, List.all_eq_true]
  simp only [Prod.forall, Record.mem_entries, hm]

/-- A text that spells a strict tree with the value of `v`, up to the order of members
and the sign of zero. -/
def Spells (text : JsString) (v : JsValue) : Prop :=
  ∃ tree, IsValue text tree ∧ tree.Strict ∧
    tree.value.denote JsNumber.dropZeroSign = v.denote JsNumber.dropZeroSign

/-- The texts of items, joined by commas, spell the items. -/
theorem exists_items {enc : JsValue → JsString} {v : JsValue} {items : List JsValue}
    (h : ∀ w ∈ v :: items, Spells (enc w) w) : ∃ trees,
      IsItems (join (unit ',') ((v :: items).map enc)) trees ∧ (∀ t ∈ trees, JsonTree.Strict t) ∧
      trees.map (fun t => t.value.denote JsNumber.dropZeroSign) =
        (v :: items).map (JsValue.denote JsNumber.dropZeroSign) := by
  have hblank : IsBlanks [] := fun _ hu => absurd hu List.not_mem_nil
  induction items generalizing v with
  | nil =>
    obtain ⟨tree, hvalue, hstrict, hdenote⟩ := h v List.mem_cons_self
    refine ⟨[tree], ?_, by simpa using hstrict, by simp [hdenote]⟩
    have hitems := IsItems.last hvalue hblank
    rw [List.append_nil] at hitems
    rwa [List.map_cons, List.map_nil, join_singleton]
  | cons w items ih =>
    obtain ⟨tree, hvalue, hstrict, hdenote⟩ := h v List.mem_cons_self
    obtain ⟨trees, htrees, hall, hmap⟩ := ih fun x hx => h x (List.mem_cons_of_mem _ hx)
    refine ⟨tree :: trees, ?_, List.forall_mem_cons.mpr ⟨hstrict, hall⟩, by
      rw [List.map_cons, List.map_cons, hmap, hdenote]⟩
    have hitems := IsItems.more hvalue hblank hblank htrees
    rw [List.append_nil, List.nil_append] at hitems
    rw [List.map_cons, List.map_cons, join_cons_cons]
    exact hitems

/-- The texts of members, joined by commas, spell the members. -/
theorem exists_members (read : JsString → JsonTree → Prop) {e : JsString × JsString}
    {es : Record JsString}
    (h : ∀ x ∈ e :: es, ∃ tree, IsValue x.2 tree ∧ tree.Strict ∧ read x.1 tree) : ∃ members,
      IsMembers (join (unit ',') ((e :: es).map memberText)) members ∧
      members.map Prod.fst = (e :: es).map Prod.fst ∧
      ∀ x ∈ members, x.2.Strict ∧ read x.1 x.2 := by
  have hblank : IsBlanks [] := fun _ hu => absurd hu List.not_mem_nil
  have hname : ∀ key, IsString (quote key) key := fun key => .intro (isStringBody_quoteBody key)
  induction es generalizing e with
  | nil =>
    obtain ⟨tree, hvalue, hstrict, hread⟩ := h e List.mem_cons_self
    refine ⟨[(e.1, tree)], ?_, rfl, by simpa using ⟨hstrict, hread⟩⟩
    have hmembers := IsMembers.last (hname e.1) hblank hblank hvalue hblank
    rw [List.append_nil, List.nil_append, List.append_nil] at hmembers
    rwa [List.map_cons, List.map_nil, join_singleton]
  | cons e' es ih =>
    obtain ⟨tree, hvalue, hstrict, hread⟩ := h e List.mem_cons_self
    obtain ⟨members, hmembers, hkeys, hall⟩ := ih fun x hx => h x (List.mem_cons_of_mem _ hx)
    refine ⟨(e.1, tree) :: members, ?_, congrArg (e.1 :: ·) hkeys,
      List.forall_mem_cons.mpr ⟨⟨hstrict, hread⟩, hall⟩⟩
    have hmore := IsMembers.more (hname e.1) hblank hblank hvalue hblank hblank hmembers
    rw [List.append_nil, List.nil_append, List.append_nil, List.nil_append] at hmore
    rw [List.map_cons, List.map_cons, join_cons_cons, memberText, List.append_assoc]
    exact hmore

/-- An object of the same names whose values read alike is equal up to the order of
members. -/
theorem denote_fromEntries {m : Record JsValue} {es : List (JsString × JsValue)}
    (hnodup : (es.map Prod.fst).Nodup) (hkeys : (es.map Prod.fst).Perm (Record.keys m))
    (hvalues : ∀ e ∈ es, ∃ v, Record.get m e.1 = some v ∧
      e.2.denote JsNumber.dropZeroSign = v.denote JsNumber.dropZeroSign) :
    (JsValue.obj (Record.fromEntries es)).denote JsNumber.dropZeroSign =
      (JsValue.obj m).denote JsNumber.dropZeroSign := by
  rw [JsValue.denote_obj_eq_iff]
  intro key
  rw [Record.get_fromEntries hnodup]
  cases hget : Record.get es key with
  | some w =>
    obtain ⟨v, hv, hdenote⟩ := hvalues _ (Record.mem_of_get hget)
    rw [hv]
    exact congrArg some hdenote
  | none =>
    cases hm : Record.get m key with
    | none => rfl
    | some v =>
      obtain ⟨e, he, rfl⟩ := List.mem_map.mp
        (hkeys.mem_iff.mpr (Record.mem_keys.mpr (Record.has_eq_true.mpr ⟨v, hm⟩)))
      rw [Record.get_eq_some_of_mem hnodup (show (e.1, e.2) ∈ es from he)] at hget
      simp at hget

/-- The text that prints a value without lone surrogates spells the value. -/
theorem JsValue.spells_encode {arrange : Record JsString → Record JsString}
    (harr : ∀ m, (arrange m).Perm (Record.entries m)) {v : JsValue} (h : v.isUnicode = true) :
    Spells (v.encode arrange) v := by
  have hblank : IsBlanks [] := fun _ hu => absurd hu List.not_mem_nil
  induction v using JsValue.induct with
  | null => exact ⟨.null, .null, .null, rfl⟩
  | bool b => exact ⟨.bool b, .bool b, .bool b, rfl⟩
  | num n =>
    refine ⟨.num n.toText, .num (isNumber_toText n), .num (by rw [numberOf_toText]; simp), ?_⟩
    rw [JsonTree.value, numberOf_toText]
    simp
  | str s => exact ⟨.str s, .str (.intro (isStringBody_quoteBody s)), .str h, rfl⟩
  | arr items ih =>
    rw [JsValue.encode_arr]
    cases items with
    | nil => exact ⟨.arr [], .arr_nil hblank, .arr (by simp), rfl⟩
    | cons v items =>
      obtain ⟨trees, htrees, hstrict, hmap⟩ := exists_items fun w hw =>
        ih w hw (JsValue.isUnicode_arr.mp h w hw)
      refine ⟨.arr trees, .arr hblank htrees, .arr hstrict, ?_⟩
      rw [JsonTree.value, JsonTree.values_eq_map, denote_arr, denote_arr, List.map_map, ← hmap]
      rfl
  | obj m ih =>
    rw [JsValue.encode_obj]
    have hkeys : ((arrange (Record.mapValues (encode arrange) m)).map Prod.fst).Perm
        (Record.keys m) := by
      rw [← Record.keys_mapValues (encode arrange) m]
      exact (harr _).map _
    have hentries : ∀ x ∈ arrange (Record.mapValues (encode arrange) m), ∃ tree,
        IsValue x.2 tree ∧ tree.Strict ∧ ∃ v, Record.get m x.1 = some v ∧
          tree.value.denote JsNumber.dropZeroSign = v.denote JsNumber.dropZeroSign := by
      intro x hx
      obtain ⟨v, hv, htext⟩ := mem_arranged harr hx
      obtain ⟨tree, hvalue, hstrict, hdenote⟩ := ih _ (Record.mem_of_get hv)
        (JsValue.isUnicode_obj.mp h _ _ hv).2
      exact ⟨tree, htext ▸ hvalue, hstrict, v, hv, hdenote⟩
    have hvalue : ∀ members : List (JsString × JsonTree), (members.map Prod.fst).Perm
        (Record.keys m) → (∀ x ∈ members, x.2.Strict ∧ ∃ v, Record.get m x.1 = some v ∧
          x.2.value.denote JsNumber.dropZeroSign = v.denote JsNumber.dropZeroSign) →
        (JsonTree.obj members).Strict ∧ (JsonTree.obj members).value.denote JsNumber.dropZeroSign =
          (JsValue.obj m).denote JsNumber.dropZeroSign := by
      intro members hperm hall
      have hnodup := hperm.nodup_iff.mpr (Record.keys_nodup m)
      refine ⟨.obj hnodup (fun e he => ?_) fun e he => (hall e he).1, ?_⟩
      · obtain ⟨-, v, hv, -⟩ := hall e he
        exact (JsValue.isUnicode_obj.mp h _ _ hv).1
      · rw [JsonTree.value, JsonTree.memberValues_eq_map]
        refine denote_fromEntries ?_ ?_ fun e he => ?_
        · simpa [List.map_map, Function.comp_def] using hnodup
        · simpa [List.map_map, Function.comp_def] using hperm
        · obtain ⟨x, hx, rfl⟩ := List.mem_map.mp he
          exact (hall x hx).2
    generalize arrange (Record.mapValues (encode arrange) m) = es at hkeys hentries
    cases es with
    | nil =>
      obtain ⟨hstrict, hdenote⟩ := hvalue [] hkeys (by simp)
      exact ⟨.obj [], .obj_nil hblank, hstrict, hdenote⟩
    | cons e es =>
      obtain ⟨members, hmembers, hnames, hall⟩ := exists_members (fun key tree => ∃ v,
        Record.get m key = some v ∧
          tree.value.denote JsNumber.dropZeroSign = v.denote JsNumber.dropZeroSign) hentries
      obtain ⟨hstrict, hdenote⟩ := hvalue members (hnames ▸ hkeys) hall
      exact ⟨.obj members, .obj hblank hmembers, hstrict, hdenote⟩

end Js
