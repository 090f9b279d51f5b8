import T3x.Transition.Scan

/-!
# The language of the strict parser

The strict parser accepts exactly the JSON texts that spell a strict tree, and
reads the value that the tree denotes. That it reads nothing else is an
induction over its calls; that it reads every such text follows the derivation
of the text in the grammar, whose length bounds the calls.
-/

namespace T3x.Transition

open Js

variable {size : ℕ} {path text rest : JsString}

/-! ## What is read is spelled -/

/-- A text begins with one that spells a strict tree, which denotes a value. -/
def SpellsValue (text : JsString) (value : JsValue) (rest : JsString) : Prop :=
  ∃ token tree, text = token ++ rest ∧ IsValue token tree ∧ tree.Strict ∧ tree.value = value

/-- A text begins with one that spells strict items, which are added to those read before. -/
def SpellsItems (result : List JsValue) (text : JsString) (value : JsValue) (rest : JsString) :
    Prop :=
  ∃ token items, text = token ++ unit ']' :: rest ∧ IsItems token items ∧
    (∀ item ∈ items, JsonTree.Strict item) ∧ value = .arr (result ++ items.map JsonTree.value)

/-- New members with distinct well-formed names and strict values. -/
structure NewMembers (result : Record JsValue) (members : List (JsString × JsonTree)) : Prop where
  /-- The names are distinct. -/
  nodup : (members.map Prod.fst).Nodup
  /-- No name has been read before. -/
  new : ∀ e ∈ members, Record.has result e.1 = false
  /-- The names have no lone surrogate. -/
  names : ∀ e ∈ members, isWellFormed e.1 = true
  /-- The values are strict. -/
  strict : ∀ e ∈ members, e.2.Strict

/-- The members read before and more. -/
def addMembers (result : Record JsValue) (members : List (JsString × JsonTree)) : Record JsValue :=
  members.foldl (fun result e => Record.setOwn result e.1 e.2.value) result

/-- A text begins with one that spells new members, which are added to those read before. -/
def SpellsMembers (result : Record JsValue) (text : JsString) (value : JsValue)
    (rest : JsString) : Prop :=
  ∃ token members, text = token ++ unit '\x7d' :: rest ∧ IsMembers token members ∧
    NewMembers result members ∧ value = .obj (addMembers result members)

/-- A name is new after a member was added when it is another and was new before. -/
theorem has_setOwn_eq_false {result : Record JsValue} {key key' : JsString} {value : JsValue} :
    Record.has (Record.setOwn result key value) key' = false ↔
      key' ≠ key ∧ Record.has result key' = false := by
  simp only [Record.has, Record.get_setOwn]
  split_ifs with h <;> simp [h]

/-- One more member in front is new when its name is new to the others. -/
theorem newMembers_cons {result : Record JsValue} {key : JsString} {item : JsonTree}
    {members : List (JsString × JsonTree)} (hnew : Record.has result key = false)
    (hname : isWellFormed key = true) (hitem : item.Strict)
    (h : NewMembers (Record.setOwn result key item.value) members) :
    NewMembers result ((key, item) :: members) := by
  have hothers : ∀ e ∈ members, e.1 ≠ key ∧ Record.has result e.1 = false :=
    fun e he => has_setOwn_eq_false.mp (h.new e he)
  refine ⟨List.nodup_cons.mpr ⟨fun hmem => ?_, h.nodup⟩, ?_, ?_, ?_⟩
  · obtain ⟨e, he, hkey⟩ := List.mem_map.mp hmem
    exact (hothers e he).1 hkey
  · exact List.forall_mem_cons.mpr ⟨hnew, fun e he => (hothers e he).2⟩
  · exact List.forall_mem_cons.mpr ⟨hname, h.names⟩
  · exact List.forall_mem_cons.mpr ⟨hitem, h.strict⟩

/-- Of new members the first is new, and the others are when it has been added. -/
theorem NewMembers.of_cons {result : Record JsValue} {key : JsString} {item : JsonTree}
    {members : List (JsString × JsonTree)} (h : NewMembers result ((key, item) :: members)) :
    (Record.has result key = false ∧ isWellFormed key = true ∧ item.Strict) ∧
      NewMembers (Record.setOwn result key item.value) members := by
  obtain ⟨hnot, hnodup⟩ := List.nodup_cons.mp h.nodup
  refine ⟨⟨h.new _ List.mem_cons_self, h.names _ List.mem_cons_self,
    h.strict _ List.mem_cons_self⟩, hnodup, fun e he => has_setOwn_eq_false.mpr ⟨?_, ?_⟩,
    fun e he => h.names e (List.mem_cons_of_mem _ he),
    fun e he => h.strict e (List.mem_cons_of_mem _ he)⟩
  · exact fun hkey => hnot (hkey ▸ List.mem_map.mpr ⟨e, he, rfl⟩)
  · exact h.new e (List.mem_cons_of_mem _ he)

/-- The calls of the parser with some fuel read what the grammar spells. -/
structure ReadsSpelled (size fuel : ℕ) : Prop where
  /-- A value that is read is spelled. -/
  value : ∀ path text value rest, parseValue size fuel path text = .ok (value, rest) →
    SpellsValue text value rest
  /-- Items that are read are spelled. -/
  items : ∀ path result text value rest,
    parseItems size fuel path result text = .ok (value, rest) → SpellsItems result text value rest
  /-- Members that are read are spelled. -/
  members : ∀ path result text value rest,
    parseMembers size fuel path result text = .ok (value, rest) →
      SpellsMembers result text value rest

/-- A call that reads items reads what the grammar spells, if the calls with less fuel do. -/
theorem ReadsSpelled.items_succ {fuel : ℕ} (h : ReadsSpelled size fuel) {result : List JsValue}
    {value : JsValue} (hparse : parseItems size (fuel + 1) path result text = .ok (value, rest)) :
    SpellsItems result text value rest := by
  rw [parseItems] at hparse
  cases hvalue : parseValue size fuel (path ++ js "[" ++ natToString result.length ++ js "]") text
    with
  | error e => simp only [hvalue, reduceCtorEq] at hparse
  | ok r =>
    obtain ⟨v, behind⟩ := r
    obtain ⟨token, tree, rfl, hspelled, hstrict, rfl⟩ := h.value _ _ _ _ hvalue
    obtain ⟨w, hw, hbehind⟩ := exists_blanks behind
    simp only [hvalue] at hparse
    cases hclose : consume (unit ']') (skipWhitespace behind) with
    | some more =>
      simp only [hclose, Except.ok.injEq, Prod.mk.injEq] at hparse
      obtain ⟨rfl, rfl⟩ := hparse
      rw [consume_eq_some_iff.mp hclose] at hbehind
      refine ⟨token ++ w, [tree], by rw [hbehind, List.append_assoc], .last hspelled hw, ?_, rfl⟩
      simpa using hstrict
    | none =>
      cases hcomma : consume (unit ',') (skipWhitespace behind) with
      | none => simp only [hclose, hcomma, reduceCtorEq] at hparse
      | some more =>
        simp only [hclose, hcomma] at hparse
        obtain ⟨w', hw', hmore⟩ := exists_blanks more
        obtain ⟨token', items, hskip, hitems, hall, rfl⟩ := h.items _ _ _ _ _ hparse
        rw [consume_eq_some_iff.mp hcomma, hmore, hskip] at hbehind
        refine ⟨token ++ w ++ unit ',' :: (w' ++ token'), tree :: items, ?_,
          .more hspelled hw hw' hitems, List.forall_mem_cons.mpr ⟨hstrict, hall⟩, ?_⟩
        · rw [hbehind]
          simp
        · simp

/-- A call that reads members reads what the grammar spells, if the calls with less fuel do. -/
theorem ReadsSpelled.members_succ {fuel : ℕ} (h : ReadsSpelled size fuel)
    {result : Record JsValue} {value : JsValue}
    (hparse : parseMembers size (fuel + 1) path result text = .ok (value, rest)) :
    SpellsMembers result text value rest := by
  rw [parseMembers] at hparse
  split_ifs at hparse with hhead
  cases hstring : parseString size (path ++ js " key") text with
  | error e => simp only [hstring, reduceCtorEq] at hparse
  | ok r =>
    obtain ⟨key, behind⟩ := r
    obtain ⟨name, rfl, hname, hunicode⟩ := parseString_sound (not_not.mp hhead) hstring
    obtain ⟨w, hw, hbehind⟩ := exists_blanks behind
    simp only [hstring] at hparse
    split_ifs at hparse with hduplicate
    rw [Bool.not_eq_true] at hduplicate
    cases hcolon : consume (unit ':') (skipWhitespace behind) with
    | none => simp only [hcolon, reduceCtorEq] at hparse
    | some after =>
      obtain ⟨w', hw', hafter⟩ := exists_blanks after
      rw [consume_eq_some_iff.mp hcolon] at hbehind
      simp only [hcolon] at hparse
      cases hvalue : parseValue size fuel (path ++ js "." ++ key) (skipWhitespace after) with
      | error e => simp only [hvalue, reduceCtorEq] at hparse
      | ok r =>
        obtain ⟨v, last⟩ := r
        obtain ⟨token, tree, hskip, hspelled, hstrict, rfl⟩ := h.value _ _ _ _ hvalue
        obtain ⟨w'', hw'', hlast⟩ := exists_blanks last
        rw [hskip] at hafter
        simp only [hvalue] at hparse
        cases hclose : consume (unit '\x7d') (skipWhitespace last) with
        | some more =>
          simp only [hclose, Except.ok.injEq, Prod.mk.injEq] at hparse
          obtain ⟨rfl, rfl⟩ := hparse
          rw [consume_eq_some_iff.mp hclose] at hlast
          refine ⟨name ++ w ++ unit ':' :: (w' ++ token ++ w''), [(key, tree)], ?_,
            .last hname hw hw' hspelled hw'', ?_, rfl⟩
          · rw [hbehind, hafter, hlast]
            simp
          · exact newMembers_cons hduplicate hunicode hstrict ⟨List.nodup_nil, by simp, by simp,
              by simp⟩
        | none =>
          cases hcomma : consume (unit ',') (skipWhitespace last) with
          | none => simp only [hclose, hcomma, reduceCtorEq] at hparse
          | some more =>
            simp only [hclose, hcomma] at hparse
            obtain ⟨w₃, hw₃, hmore⟩ := exists_blanks more
            obtain ⟨token', members, hskip', hmembers, hnew, rfl⟩ := h.members _ _ _ _ _ hparse
            rw [consume_eq_some_iff.mp hcomma, hmore, hskip'] at hlast
            refine ⟨name ++ w ++ unit ':' :: (w' ++ token ++ w'' ++ unit ',' :: (w₃ ++ token')),
              (key, tree) :: members, ?_, .more hname hw hw' hspelled hw'' hw₃ hmembers,
              newMembers_cons hduplicate hunicode hstrict hnew, rfl⟩
            rw [hbehind, hafter, hlast]
            simp

/-- The members added to none make an object of the members. -/
theorem addMembers_nil (members : List (JsString × JsonTree)) :
    JsValue.obj (addMembers [] members) = (JsonTree.obj members).value := by
  rw [JsonTree.value, JsonTree.memberValues_eq_map, Record.fromEntries, List.foldl_map]
  rfl

/-- A call that reads a value reads what the grammar spells, if the calls with less fuel do. -/
theorem ReadsSpelled.value_succ {fuel : ℕ} (h : ReadsSpelled size fuel) {value : JsValue}
    (hparse : parseValue size (fuel + 1) path text = .ok (value, rest)) :
    SpellsValue text value rest := by
  cases text with
  | nil => simp [parseValue] at hparse
  | cons u text =>
    rw [parseValue] at hparse
    obtain ⟨w, hw, htext⟩ := exists_blanks text
    split_ifs at hparse with hquote hbrace hbracket htrue hfalse hnull hnumber
    · obtain ⟨r, hr, hmap⟩ := map_eq_ok_iff.mp hparse
      obtain ⟨rfl, rfl⟩ := Prod.mk.inj hmap
      obtain ⟨token, heq, hstring, hunicode⟩ := parseString_sound (by rw [hquote]; rfl) hr
      exact ⟨token, .str r.1, heq, .str hstring, .str hunicode, rfl⟩
    · subst hbrace
      cases hclose : consume (unit '\x7d') (skipWhitespace text) with
      | some more =>
        simp only [hclose, Except.ok.injEq, Prod.mk.injEq] at hparse
        obtain ⟨rfl, rfl⟩ := hparse
        rw [consume_eq_some_iff.mp hclose] at htext
        refine ⟨unit '\x7b' :: (w ++ [unit '\x7d']), .obj [], ?_, .obj_nil hw,
          .obj List.nodup_nil (by simp) (by simp), rfl⟩
        rw [htext]
        simp
      | none =>
        simp only [hclose] at hparse
        obtain ⟨token, members, hskip, hmembers, hnew, rfl⟩ := h.members _ _ _ _ _ hparse
        refine ⟨unit '\x7b' :: (w ++ token ++ [unit '\x7d']), .obj members, ?_, .obj hw hmembers,
          .obj hnew.nodup hnew.names hnew.strict, (addMembers_nil members).symm⟩
        rw [htext, hskip]
        simp
    · subst hbracket
      cases hclose : consume (unit ']') (skipWhitespace text) with
      | some more =>
        simp only [hclose, Except.ok.injEq, Prod.mk.injEq] at hparse
        obtain ⟨rfl, rfl⟩ := hparse
        rw [consume_eq_some_iff.mp hclose] at htext
        refine ⟨unit '[' :: (w ++ [unit ']']), .arr [], ?_, .arr_nil hw, .arr (by simp), rfl⟩
        rw [htext]
        simp
      | none =>
        simp only [hclose] at hparse
        obtain ⟨token, items, hskip, hitems, hstrict, rfl⟩ := h.items _ _ _ _ _ hparse
        refine ⟨unit '[' :: (w ++ token ++ [unit ']']), .arr items, ?_, .arr hw hitems,
          .arr hstrict, ?_⟩
        · rw [htext, hskip]
          simp
        · rw [JsonTree.value, JsonTree.values_eq_map, List.nil_append]
    · obtain ⟨heq, rfl⟩ := parseLiteral_sound hparse
      exact ⟨js "true", .bool true, heq, .bool true, .bool true, rfl⟩
    · obtain ⟨heq, rfl⟩ := parseLiteral_sound hparse
      exact ⟨js "false", .bool false, heq, .bool false, .bool false, rfl⟩
    · obtain ⟨heq, rfl⟩ := parseLiteral_sound hparse
      exact ⟨js "null", .null, heq, .null, .null, rfl⟩
    · obtain ⟨r, hr, hmap⟩ := map_eq_ok_iff.mp hparse
      obtain ⟨rfl, rfl⟩ := Prod.mk.inj hmap
      obtain ⟨token, heq, hnum, hvalue⟩ := parseNumber_sound hr
      refine ⟨token, .num token, heq, .num hnum, .num (by rw [hvalue]; simp), ?_⟩
      rw [JsonTree.value, hvalue]
      rfl

/-- Whatever its fuel, the parser reads what the grammar spells. -/
theorem readsSpelled (size fuel : ℕ) : ReadsSpelled size fuel := by
  induction fuel with
  | zero =>
    exact ⟨fun _ _ _ _ h => by simp [parseValue] at h, fun _ _ _ _ _ h => by simp [parseItems] at h,
      fun _ _ _ _ _ h => by simp [parseMembers] at h⟩
  | succ fuel ih =>
    exact ⟨fun _ _ _ _ h => ih.value_succ h, fun _ _ _ _ _ h => ih.items_succ h,
      fun _ _ _ _ _ h => ih.members_succ h⟩

/-! ## What is spelled is read -/

/-- A code unit that begins the text of a value. -/
def Leads (u : UInt16) : Prop := isBlank u = false ∧ u ≠ unit ']' ∧ u ≠ unit '\x7d'

/-- The text that spells a value begins like one. -/
theorem lead_of_isValue {token : JsString} {tree : JsonTree} (h : IsValue token tree) :
    ∃ u more, token = u :: more ∧ Leads u := by
  have hdigit : ∀ {u : UInt16}, isDigit u = true → Leads u := by
    intro u hu
    refine ⟨?_, ?_, ?_⟩
    · rw [← Bool.not_eq_true]
      intro hblank
      simp only [isBlank, Bool.or_eq_true, beq_iff_eq] at hblank
      rcases hblank with ((rfl | rfl) | rfl) | rfl <;> exact absurd hu (by decide)
    · rintro rfl
      exact absurd hu (by decide)
    · rintro rfl
      exact absurd hu (by decide)
  cases h with
  | null => exact ⟨_, _, rfl, by decide, by decide, by decide⟩
  | bool b => cases b <;> exact ⟨_, _, rfl, by decide, by decide, by decide⟩
  | num h =>
    cases h with
    | positive hs =>
      obtain ⟨u, more, rfl, hu⟩ := IsUnsigned.lead hs
      exact ⟨u, more, rfl, hdigit hu⟩
    | negative hs => exact ⟨_, _, rfl, by decide, by decide, by decide⟩
  | str h =>
    obtain ⟨-⟩ := h
    exact ⟨_, _, rfl, by decide, by decide, by decide⟩
  | arr_nil _ => exact ⟨_, _, rfl, by decide, by decide, by decide⟩
  | arr _ _ => exact ⟨_, _, rfl, by decide, by decide, by decide⟩
  | obj_nil _ => exact ⟨_, _, rfl, by decide, by decide, by decide⟩
  | obj _ _ => exact ⟨_, _, rfl, by decide, by decide, by decide⟩

/-- The text that spells items begins like a value. -/
theorem lead_of_isItems {token : JsString} {items : List JsonTree} (h : IsItems token items) :
    ∃ u more, token = u :: more ∧ Leads u := by
  cases h with
  | last h _ =>
    obtain ⟨u, more, rfl, hu⟩ := lead_of_isValue h
    exact ⟨u, _, rfl, hu⟩
  | more h _ _ _ =>
    obtain ⟨u, more, rfl, hu⟩ := lead_of_isValue h
    exact ⟨u, _, rfl, hu⟩

/-- The text that spells members begins with a quote. -/
theorem lead_of_isMembers {token : JsString} {members : List (JsString × JsonTree)}
    (h : IsMembers token members) : ∃ more, token = unit '"' :: more := by
  cases h with
  | last hname _ _ _ _ =>
    obtain ⟨-⟩ := hname
    exact ⟨_, rfl⟩
  | more hname _ _ _ _ _ _ =>
    obtain ⟨-⟩ := hname
    exact ⟨_, rfl⟩

/-- The text of a name begins with a quote. -/
theorem head_of_isString {name s : JsString} (h : IsString name s) (rest : JsString) :
    (name ++ rest).head? = some (unit '"') := by
  obtain ⟨-⟩ := h
  rfl

/-- Whitespace before what begins a value is skipped. -/
theorem skipWhitespace_lead {w token : JsString} (hw : IsBlanks w)
    (h : ∃ u more, token = u :: more ∧ Leads u) (rest : JsString) :
    skipWhitespace (w ++ (token ++ rest)) = token ++ rest := by
  obtain ⟨u, more, rfl, hu⟩ := h
  rw [skipWhitespace_append hw, List.cons_append, skipWhitespace_cons hu.1]

/-- Whitespace before a character that is none is skipped. -/
theorem skipWhitespace_append_cons {w : JsString} (hw : IsBlanks w) {u : UInt16}
    (hu : isBlank u = false) (rest : JsString) :
    skipWhitespace (w ++ u :: rest) = u :: rest := by
  rw [skipWhitespace_append hw, skipWhitespace_cons hu]

/-- A number token is dispatched to `parseNumber`. -/
theorem parseValue_of_isNumber {fuel : ℕ} {token : JsString} (h : IsNumber token) :
    parseValue size (fuel + 1) path (token ++ rest) =
      (parseNumber size path (token ++ rest)).map fun r => (.num r.1, r.2) := by
  obtain ⟨u, more, rfl, hu⟩ : ∃ u more, token = u :: more ∧ (u = unit '-' ∨ isDigit u = true) := by
    cases h with
    | positive hs =>
      obtain ⟨u, more, rfl, hu⟩ := IsUnsigned.lead hs
      exact ⟨u, more, rfl, .inr hu⟩
    | negative hs => exact ⟨_, _, rfl, .inl rfl⟩
  have hne : ∀ c, isDigit c = false → c ≠ unit '-' → u ≠ c := by
    rintro c hdigit hminus rfl
    rcases hu with hu | hu
    · exact hminus hu
    · rw [hdigit] at hu
      exact Bool.false_ne_true hu
  rw [List.cons_append, parseValue, if_neg (hne _ (by decide) (by decide)),
    if_neg (hne _ (by decide) (by decide)), if_neg (hne _ (by decide) (by decide)),
    if_neg (hne _ (by decide) (by decide)), if_neg (hne _ (by decide) (by decide)),
    if_neg (hne _ (by decide) (by decide)), if_pos hu]

/-- The calls of the parser with some fuel read every text that the fuel is enough for. -/
structure ReadsAll (size fuel : ℕ) : Prop where
  /-- Every strict value is read. -/
  value : ∀ {token tree}, IsValue token tree → tree.Strict → 2 * token.length ≤ fuel →
    ∀ path rest, Follows rest →
      parseValue size fuel path (token ++ rest) = .ok (tree.value, rest)
  /-- All strict items are read. -/
  items : ∀ {token items}, IsItems token items → (∀ item ∈ items, JsonTree.Strict item) →
    2 * token.length + 1 ≤ fuel → ∀ path result rest,
      parseItems size fuel path result (token ++ unit ']' :: rest) =
        .ok (.arr (result ++ items.map JsonTree.value), rest)
  /-- All new members are read. -/
  members : ∀ {token members}, IsMembers token members → ∀ {result}, NewMembers result members →
    2 * token.length + 1 ≤ fuel → ∀ path rest,
      parseMembers size fuel path result (token ++ unit '\x7d' :: rest) =
        .ok (.obj (addMembers result members), rest)

/-- The text of a value is not empty. -/
theorem length_pos_of_isValue {token : JsString} {tree : JsonTree} (h : IsValue token tree) :
    0 < token.length := by
  obtain ⟨u, more, rfl, -⟩ := lead_of_isValue h
  exact Nat.succ_pos _

/-- A call reads all items, if the calls with less fuel read all. -/
theorem ReadsAll.items_succ {fuel : ℕ} (hall : ReadsAll size fuel) {token : JsString}
    {items : List JsonTree} (h : IsItems token items)
    (hstrict : ∀ item ∈ items, JsonTree.Strict item) (hfuel : 2 * token.length + 1 ≤ fuel + 1)
    (result : List JsValue) (rest : JsString) :
    parseItems size (fuel + 1) path result (token ++ unit ']' :: rest) =
      .ok (.arr (result ++ items.map JsonTree.value), rest) := by
  cases h with
  | @last text w item h hw =>
    rw [List.length_append] at hfuel
    have hvalue := hall.value h (hstrict _ List.mem_cons_self) (by omega)
      (path ++ js "[" ++ natToString result.length ++ js "]") (w ++ unit ']' :: rest)
      ((follows_cons (by decide) rest).append hw)
    rw [List.append_assoc, parseItems, hvalue]
    simp only [skipWhitespace_append_cons hw (u := unit ']') (by decide), consume_cons,
      List.map_cons, List.map_nil]
  | @more text w w' token' item items h hw hw' hrest =>
    have hpos := length_pos_of_isValue h
    simp only [List.length_append, List.length_cons] at hfuel
    have hvalue := hall.value h (hstrict _ List.mem_cons_self) (by omega)
      (path ++ js "[" ++ natToString result.length ++ js "]")
      (w ++ unit ',' :: (w' ++ (token' ++ unit ']' :: rest)))
      ((follows_cons (by decide) _).append hw)
    have hitems := hall.items hrest (fun item hi => hstrict item (List.mem_cons_of_mem _ hi))
      (by omega) path (result ++ [item.value]) rest
    have htext : text ++ w ++ unit ',' :: (w' ++ token') ++ unit ']' :: rest =
        text ++ (w ++ unit ',' :: (w' ++ (token' ++ unit ']' :: rest))) := by simp
    rw [htext, parseItems, hvalue]
    simp only [skipWhitespace_append_cons hw (u := unit ',') (by decide),
      consume_of_ne (by decide : unit ',' ≠ unit ']'), consume_cons,
      skipWhitespace_lead hw' (lead_of_isItems hrest), hitems, List.map_cons, List.append_assoc,
      List.singleton_append]

/-- A call reads all members, if the calls with less fuel read all. -/
theorem ReadsAll.members_succ {fuel : ℕ} (hall : ReadsAll size fuel) {token : JsString}
    {members : List (JsString × JsonTree)} (h : IsMembers token members) {result : Record JsValue}
    (hnew : NewMembers result members) (hfuel : 2 * token.length + 1 ≤ fuel + 1)
    (rest : JsString) :
    parseMembers size (fuel + 1) path result (token ++ unit '\x7d' :: rest) =
      .ok (.obj (addMembers result members), rest) := by
  have hcolon : isBlank (unit ':') = false := by decide
  cases h with
  | @last name w w' text w'' key value hname hw hw' h hw'' =>
    obtain ⟨⟨hkey, hunicode, hstrict⟩, -⟩ := hnew.of_cons
    simp only [List.length_append, List.length_cons] at hfuel
    have hvalue := hall.value h hstrict (by omega) (path ++ js "." ++ key)
      (w'' ++ unit '\x7d' :: rest) ((follows_cons (by decide) rest).append hw'')
    have hstring := parseString_of_isString size (path ++ js " key") hname
      hunicode (w ++ unit ':' :: (w' ++ (text ++ (w'' ++ unit '\x7d' :: rest))))
    have htext : name ++ w ++ unit ':' :: (w' ++ text ++ w'') ++ unit '\x7d' :: rest =
        name ++ (w ++ unit ':' :: (w' ++ (text ++ (w'' ++ unit '\x7d' :: rest)))) := by simp
    rw [htext, parseMembers, if_neg (not_not.mpr (head_of_isString hname _)), hstring]
    simp only [hkey, Bool.false_eq_true, if_false, skipWhitespace_append_cons hw hcolon,
      consume_cons, skipWhitespace_lead hw' (lead_of_isValue h), hvalue,
      skipWhitespace_append_cons hw'' (u := unit '\x7d') (by decide)]
    rfl
  | @more name w w' text w'' w₃ token' key value members hname hw hw' h hw'' hw₃ hrest =>
    obtain ⟨⟨hkey, hunicode, hstrict⟩, hothers⟩ := hnew.of_cons
    have hpos := length_pos_of_isValue h
    simp only [List.length_append, List.length_cons] at hfuel
    have hvalue := hall.value h hstrict (by omega) (path ++ js "." ++ key)
      (w'' ++ unit ',' :: (w₃ ++ (token' ++ unit '\x7d' :: rest)))
      ((follows_cons (by decide) _).append hw'')
    have hstring := parseString_of_isString size (path ++ js " key") hname
      hunicode (w ++ unit ':' :: (w' ++ (text ++ (w'' ++ unit ',' ::
        (w₃ ++ (token' ++ unit '\x7d' :: rest))))))
    have hmembers := hall.members hrest hothers (by omega) path rest
    have hskip : skipWhitespace (w₃ ++ (token' ++ unit '\x7d' :: rest)) =
        token' ++ unit '\x7d' :: rest := by
      obtain ⟨more, rfl⟩ := lead_of_isMembers hrest
      exact skipWhitespace_append_cons hw₃ (by decide) _
    have htext : name ++ w ++ unit ':' :: (w' ++ text ++ w'' ++ unit ',' :: (w₃ ++ token')) ++
        unit '\x7d' :: rest = name ++ (w ++ unit ':' :: (w' ++ (text ++ (w'' ++ unit ',' ::
          (w₃ ++ (token' ++ unit '\x7d' :: rest)))))) := by simp
    rw [htext, parseMembers, if_neg (not_not.mpr (head_of_isString hname _)), hstring]
    simp only [hkey, Bool.false_eq_true, if_false, skipWhitespace_append_cons hw hcolon,
      consume_cons, skipWhitespace_lead hw' (lead_of_isValue h), hvalue,
      skipWhitespace_append_cons hw'' (u := unit ',') (by decide),
      consume_of_ne (by decide : unit ',' ≠ unit '\x7d'), hskip, hmembers]
    rfl

/-- A call reads every value, if the calls with less fuel read all. -/
theorem ReadsAll.value_succ {fuel : ℕ} (hall : ReadsAll size fuel) {token : JsString}
    {tree : JsonTree} (h : IsValue token tree) (hstrict : tree.Strict)
    (hfuel : 2 * token.length ≤ fuel + 1) {rest : JsString} (hrest : Follows rest) :
    parseValue size (fuel + 1) path (token ++ rest) = .ok (tree.value, rest) := by
  cases h with
  | null => exact parseLiteral_append size path (js "null") .null rest
  | bool b =>
    cases b with
    | true => exact parseLiteral_append size path (js "true") (.bool true) rest
    | false => exact parseLiteral_append size path (js "false") (.bool false) rest
  | num h =>
    cases hstrict with
    | num hfinite =>
      obtain ⟨x, hx⟩ := Option.ne_none_iff_exists'.mp hfinite
      rw [parseValue_of_isNumber h, parseNumber_of_isNumber h hx hrest, JsonTree.value, hx]
      rfl
  | str h =>
    cases hstrict with
    | str hunicode =>
      have hstring := parseString_of_isString size path h hunicode rest
      obtain ⟨more, hmore⟩ := List.head?_eq_some_iff.mp (head_of_isString h rest)
      rw [hmore] at hstring ⊢
      rw [parseValue, if_pos rfl, hstring]
      rfl
  | @arr_nil w hw =>
    have htext : unit '[' :: (w ++ [unit ']']) ++ rest = unit '[' :: (w ++ unit ']' :: rest) := by
      simp
    rw [htext, parseValue, if_neg (by decide), if_neg (by decide), if_pos rfl,
      skipWhitespace_append_cons hw (by decide), consume_cons]
    rfl
  | @arr w text items hw h =>
    cases hstrict with
    | arr hitems =>
      have htext : unit '[' :: (w ++ text ++ [unit ']']) ++ rest =
          unit '[' :: (w ++ (text ++ unit ']' :: rest)) := by simp
      simp only [List.length_cons, List.length_append, List.length_nil] at hfuel
      have hread := hall.items h hitems (by omega) path [] rest
      rw [htext, parseValue, if_neg (by decide), if_neg (by decide), if_pos rfl,
        skipWhitespace_lead hw (lead_of_isItems h)]
      obtain ⟨u, more, rfl, hu⟩ := lead_of_isItems h
      rw [List.cons_append] at hread ⊢
      rw [consume_of_ne hu.2.1]
      simp only [hread, List.nil_append, JsonTree.value, JsonTree.values_eq_map]
  | @obj_nil w hw =>
    have htext : unit '\x7b' :: (w ++ [unit '\x7d']) ++ rest =
        unit '\x7b' :: (w ++ unit '\x7d' :: rest) := by simp
    rw [htext, parseValue, if_neg (by decide), if_pos rfl,
      skipWhitespace_append_cons hw (by decide), consume_cons]
    rfl
  | @obj w text members hw h =>
    cases hstrict with
    | obj hnodup hnames hvalues =>
      have htext : unit '\x7b' :: (w ++ text ++ [unit '\x7d']) ++ rest =
          unit '\x7b' :: (w ++ (text ++ unit '\x7d' :: rest)) := by simp
      simp only [List.length_cons, List.length_append, List.length_nil] at hfuel
      have hread := hall.members h (⟨hnodup, fun _ _ => rfl, hnames, hvalues⟩ : NewMembers [] _)
        (by omega) path rest
      obtain ⟨more, rfl⟩ := lead_of_isMembers h
      rw [List.cons_append] at hread
      rw [htext, List.cons_append, parseValue, if_neg (by decide), if_pos rfl,
        skipWhitespace_append_cons hw (by decide), consume_of_ne (by decide)]
      simp only [hread, addMembers_nil]

/-- With any fuel the parser reads every text that the fuel is enough for. -/
theorem readsAll (size fuel : ℕ) : ReadsAll size fuel := by
  induction fuel with
  | zero =>
    refine ⟨fun h _ hfuel => ?_, fun h _ hfuel => ?_, fun h _ _ hfuel => ?_⟩
    · have hpos := length_pos_of_isValue h
      omega
    · omega
    · omega
  | succ fuel ih =>
    exact ⟨fun h hstrict hfuel _ _ hrest => ih.value_succ h hstrict hfuel hrest,
      fun h hstrict hfuel _ result rest => ih.items_succ h hstrict hfuel result rest,
      fun h _ hnew hfuel _ rest => ih.members_succ h hnew hfuel rest⟩

/-! ## The language -/

/-- Whitespace is skipped up to its end. -/
theorem skipWhitespace_eq_nil_iff : skipWhitespace text = [] ↔ IsBlanks text :=
  List.dropWhile_eq_nil_iff

/-- A text that spells a strict tree is read as the value that the tree denotes. -/
theorem parseProtocolJson_of_isJsonText {source : JsString} {tree : JsonTree}
    (h : IsJsonText source tree) (hstrict : tree.Strict) :
    parseProtocolJson source = .ok tree.value := by
  obtain @⟨w, text, w', tree, hw, h, hw'⟩ := h
  have hfollows : Follows w' := by
    have hfollows := follows_nil.append hw'
    rwa [List.append_nil] at hfollows
  have hread := (readsAll (w ++ text ++ w').length (2 * (w ++ text ++ w').length)).value h hstrict
    (by simp only [List.length_append]; omega) (js "$") w' hfollows
  have hskip : skipWhitespace (w ++ text ++ w') = text ++ w' := by
    rw [List.append_assoc, skipWhitespace_lead hw (lead_of_isValue h)]
  unfold parseProtocolJson
  rw [hskip, hread]
  simp only [skipWhitespace_eq_nil_iff.mpr hw', ne_eq, not_true_eq_false, if_false]

/-- The strict parser accepts exactly the JSON texts that spell a strict tree, and reads
the value that the tree denotes. -/
theorem parseProtocolJson_eq_ok_iff {source : JsString} {value : JsValue} :
    parseProtocolJson source = .ok value ↔
      ∃ tree, IsJsonText source tree ∧ tree.Strict ∧ tree.value = value := by
  constructor
  · intro h
    unfold parseProtocolJson at h
    cases hparse : parseValue source.length (2 * source.length) (js "$") (skipWhitespace source)
      with
    | error e => simp only [hparse, reduceCtorEq] at h
    | ok r =>
      obtain ⟨v, rest⟩ := r
      simp only [hparse] at h
      split_ifs at h with htrailing
      obtain rfl := Except.ok.inj h
      obtain ⟨token, tree, hskip, hspelled, hstrict, hvalue⟩ :=
        (readsSpelled _ _).value _ _ _ _ hparse
      obtain ⟨w, hw, hsource⟩ := exists_blanks source
      refine ⟨tree, ?_, hstrict, hvalue⟩
      have htext := IsJsonText.intro hw hspelled (skipWhitespace_eq_nil_iff.mp (not_not.mp htrailing))
      rwa [List.append_assoc, ← hskip, ← hsource] at htext
  · rintro ⟨tree, htext, hstrict, rfl⟩
    exact parseProtocolJson_of_isJsonText htext hstrict

end T3x.Transition
