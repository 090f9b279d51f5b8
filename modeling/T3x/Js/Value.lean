import T3x.Js.NumberText

/-!
# Values and records of the scripting language

A record is the list of its own properties in enumeration order. Where a name
occurs twice the first entry counts, so every list is a record and no operation
needs a side condition. JSON-like values are trees of such records; a function
that reads a whole value is a fold over it.
-/

namespace Js

/-- `[...new Set(items)]`: the distinct items in the order of their first
occurrences. -/
def distinct {T : Type} [DecidableEq T] : List T → List T
  | [] => []
  | a :: items => a :: (distinct items).filter fun b => decide (b ≠ a)

/-- The distinct items are the items. -/
@[simp] theorem mem_distinct {T : Type} [DecidableEq T] {a : T} {items : List T} :
    a ∈ distinct items ↔ a ∈ items := by
  induction items with
  | nil => rfl
  | cons b items ih =>
    by_cases h : a = b <;> simp [distinct, h, ih]

/-- The distinct items are distinct. -/
theorem nodup_distinct {T : Type} [DecidableEq T] (items : List T) : (distinct items).Nodup := by
  induction items with
  | nil => exact List.nodup_nil
  | cons a items ih =>
    refine List.nodup_cons.mpr ⟨?_, ih.filter _⟩
    simp

/-- Items without repetition are distinct already. -/
theorem distinct_of_nodup {T : Type} [DecidableEq T] {items : List T} (h : items.Nodup) :
    distinct items = items := by
  induction items with
  | nil => rfl
  | cons a items ih =>
    obtain ⟨hnot, hrest⟩ := List.nodup_cons.mp h
    rw [distinct, ih hrest, List.filter_eq_self.mpr]
    intro b hb
    exact decide_eq_true fun heq => hnot (heq ▸ hb)

/-- Choosing among the distinct items is making the chosen items distinct. -/
theorem filter_distinct {T : Type} [DecidableEq T] (p : T → Bool) (items : List T) :
    (distinct items).filter p = distinct (items.filter p) := by
  induction items with
  | nil => rfl
  | cons a items ih =>
    cases hp : p a
    · rw [distinct, List.filter_cons_of_neg (by simp [hp]), List.filter_cons_of_neg (by simp [hp]),
        List.filter_filter, ← ih]
      refine List.filter_congr fun b hb => ?_
      cases hb : p b
      · rfl
      · have hne : b ≠ a := by
          rintro rfl
          simp [hp] at hb
        simp [hne]
    · rw [distinct, List.filter_cons_of_pos hp, List.filter_cons_of_pos hp, distinct, ← ih,
        List.filter_filter, List.filter_filter]
      congr 1
      exact List.filter_congr fun b _ => Bool.and_comm _ _

/-- The own properties of an object, in enumeration order. -/
abbrev Record (V : Type) := List (JsString × V)

namespace Record

variable {V W : Type}

/-- The value of an own property. -/
def get : Record V → JsString → Option V
  | [], _ => none
  | (k, v) :: m, key => if k = key then some v else get m key

/-- `Object.hasOwn(m, key)`. -/
def has (m : Record V) (key : JsString) : Bool := (Record.get m key).isSome

/-- `Object.entries(m)`: the entries that count. -/
def entries : Record V → Record V
  | [] => []
  | (k, v) :: m => (k, v) :: (entries m).filter fun e => decide (e.1 ≠ k)

/-- `Object.keys(m)`. -/
def keys (m : Record V) : List JsString := (entries m).map Prod.fst

/-- Delete an own property. -/
def erase (m : Record V) (key : JsString) : Record V := m.filter fun e => decide (e.1 ≠ key)

/-- Apply a function to every value. -/
def mapValues (f : V → W) (m : Record V) : Record W := m.map fun e => (e.1, f e.2)

/-- Whether a property name is an array index, which enumerates before the
other names and in ascending order. -/
def isArrayIndex (key : JsString) : Bool :=
  key.all isDigit && decide (natToString (digitsValue key) = key ∧ digitsValue key < 2 ^ 32 - 1)

/-- Add a new property where enumeration order puts it. -/
def insertOwn (key : JsString) (value : V) : Record V → Record V
  | [] => [(key, value)]
  | (k, v) :: m =>
    if isArrayIndex key && !(isArrayIndex k && decide (digitsValue k < digitsValue key)) then
      (key, value) :: (k, v) :: m
    else (k, v) :: insertOwn key value m

/-- Define an own property: a present one keeps its place. -/
def setOwn (m : Record V) (key : JsString) (value : V) : Record V :=
  if has m key then m.map fun e => if e.1 = key then (key, value) else e
  else insertOwn key value m

/-- `Object.fromEntries(entries)`. -/
def fromEntries (es : List (JsString × V)) : Record V :=
  es.foldl (fun m e => setOwn m e.1 e.2) []

/-- `map.set(key, value)` on a map of entries: a new key goes to the end. -/
def mapSet (m : Record V) (key : JsString) (value : V) : Record V :=
  if has m key then m.map fun e => if e.1 = key then (key, value) else e
  else m ++ [(key, value)]

/-- The property name whose plain assignment sets a prototype. -/
def protoName : JsString := js "__proto__"

/-- `m[key] = value` on an ordinary object: assigning the inherited prototype
accessor adds no own property. -/
def assign (m : Record V) (key : JsString) (value : V) : Record V :=
  if key = protoName ∧ has m key = false then m else setOwn m key value

/-! ## Reading after writing -/

/-- An own property that is read stands in the list. -/
theorem mem_of_get {m : Record V} {key : JsString} {v : V} (h : get m key = some v) :
    (key, v) ∈ m := by
  induction m with
  | nil => simp [get] at h
  | cons e m ih =>
    obtain ⟨k, w⟩ := e
    unfold get at h
    split_ifs at h with hk
    · obtain rfl := Option.some.inj h
      subst hk
      exact List.mem_cons_self
    · exact List.mem_cons_of_mem _ (ih h)

/-- A property is own exactly when reading it gives a value. -/
theorem has_eq_true {m : Record V} {key : JsString} :
    has m key = true ↔ ∃ v, get m key = some v := Option.isSome_iff_exists

/-- A property is not own exactly when reading it gives nothing. -/
theorem has_eq_false {m : Record V} {key : JsString} :
    has m key = false ↔ get m key = none := by
  simp [has]

/-- A name reads as nothing exactly when no entry has it. -/
theorem get_eq_none_iff {m : Record V} {key : JsString} :
    get m key = none ↔ key ∉ m.map Prod.fst := by
  induction m with
  | nil => exact iff_of_true rfl List.not_mem_nil
  | cons e m ih =>
    obtain ⟨k, v⟩ := e
    unfold get
    rw [List.map_cons, List.mem_cons, not_or, ← ih]
    split_ifs with hk
    · exact iff_of_false (fun heq => by cases heq) (fun hnot => hnot.1 hk.symm)
    · exact (and_iff_right (Ne.symm hk)).symm

/-- A name is not own exactly when no entry has it. -/
theorem has_eq_false_iff_not_mem {m : Record V} {key : JsString} :
    has m key = false ↔ key ∉ m.map Prod.fst :=
  has_eq_false.trans get_eq_none_iff

/-- Reading a mapped record. -/
@[simp] theorem get_mapValues (f : V → W) (m : Record V) (key : JsString) :
    get (mapValues f m) key = (get m key).map f := by
  induction m with
  | nil => rfl
  | cons e m ih =>
    obtain ⟨k, v⟩ := e
    simp only [mapValues, List.map_cons, get]
    split_ifs with hk
    · rfl
    · exact ih

/-- Mapping the values keeps the own names. -/
@[simp] theorem has_mapValues (f : V → W) (m : Record V) (key : JsString) :
    has (mapValues f m) key = has m key := by
  simp [has]

/-- Dropping the entries of other names does not change what a name reads. -/
theorem get_filter {m : Record V} {key : JsString} {p : JsString × V → Bool}
    (hp : ∀ v, p (key, v) = true) : get (m.filter p) key = get m key := by
  induction m with
  | nil => rfl
  | cons e m ih =>
    obtain ⟨k, v⟩ := e
    by_cases hk : k = key
    · subst hk
      simp [get, hp v]
    · cases hpv : p (k, v) <;> simp [get, hk, hpv, ih]

/-- Dropping every entry of a name leaves the name without a value. -/
theorem get_filter_none {m : Record V} {key : JsString} {p : JsString × V → Bool}
    (hp : ∀ v, p (key, v) = false) : get (m.filter p) key = none := by
  induction m with
  | nil => rfl
  | cons e m ih =>
    obtain ⟨k, v⟩ := e
    by_cases hk : k = key
    · subst hk
      simp [hp v, ih]
    · cases hpv : p (k, v) <;> simp [get, hk, hpv, ih]

/-- The entries that count read as the record does. -/
@[simp] theorem get_entries (m : Record V) (key : JsString) : get (entries m) key = get m key := by
  induction m with
  | nil => rfl
  | cons e m ih =>
    obtain ⟨k, v⟩ := e
    simp only [entries, get]
    split_ifs with hk
    · rfl
    · rw [get_filter (by simp [Ne.symm hk]), ih]

/-- Every name occurs once among the entries that count. -/
theorem keys_nodup (m : Record V) : (keys m).Nodup := by
  unfold keys
  induction m with
  | nil => simp [entries]
  | cons e m ih =>
    obtain ⟨k, v⟩ := e
    simp only [entries, List.map_cons, List.nodup_cons]
    constructor
    · simp only [List.mem_map, List.mem_filter, not_exists]
      rintro e ⟨⟨-, hne⟩, rfl⟩
      simp at hne
    · exact ih.sublist (List.Sublist.map _ List.filter_sublist)

/-- The entries that count are the names with the values they read. -/
theorem mem_entries {m : Record V} {key : JsString} {v : V} :
    (key, v) ∈ entries m ↔ get m key = some v := by
  induction m with
  | nil => simp [entries, get]
  | cons e m ih =>
    obtain ⟨k, w⟩ := e
    simp only [entries, get, List.mem_cons, List.mem_filter, Prod.mk.injEq, decide_eq_true_eq, ih]
    by_cases hk : k = key
    · subst hk
      simp [eq_comm]
    · simp [hk, Ne.symm hk]

/-- The enumerated names are the own names. -/
theorem mem_keys {m : Record V} {key : JsString} : key ∈ keys m ↔ has m key = true := by
  rw [has_eq_true]
  simp only [keys, List.mem_map, Prod.exists, exists_and_right, exists_eq_right]
  exact exists_congr fun v => mem_entries

/-- Reading a name in a record whose names are distinct. -/
theorem get_eq_some_of_mem {m : Record V} (hm : (m.map Prod.fst).Nodup) {key : JsString} {v : V}
    (h : (key, v) ∈ m) : get m key = some v := by
  induction m with
  | nil => simp at h
  | cons e m ih =>
    obtain ⟨k, w⟩ := e
    obtain ⟨hnot, hnd⟩ := List.nodup_cons.mp hm
    rcases List.mem_cons.mp h with h | h
    · cases h
      simp [get]
    · have hne : k ≠ key := by
        rintro rfl
        exact hnot (List.mem_map.mpr ⟨_, h, rfl⟩)
      simp [get, hne, ih hnd h]

/-- All entries of a record with distinct names count. -/
theorem entries_of_nodup {m : Record V} (hm : (m.map Prod.fst).Nodup) : entries m = m := by
  induction m with
  | nil => rfl
  | cons e m ih =>
    obtain ⟨hnot, hrest⟩ := List.nodup_cons.mp hm
    rw [entries, ih hrest, List.filter_eq_self.mpr]
    intro e' he'
    exact decide_eq_true fun heq => hnot (List.mem_map.mpr ⟨e', he', heq⟩)

/-- A record with as many names as one that has all its names has no other names. -/
theorem get_eq_none_of_subset {m : Record V} {m' : Record W}
    (hlen : (keys m).length = (keys m').length)
    (hsub : ∀ key, has m key = true → has m' key = true) {key : JsString}
    (h : get m key = none) : get m' key = none := by
  have hkeys : keys m ⊆ keys m' := fun k hk => mem_keys.mpr (hsub k (mem_keys.mp hk))
  have hperm := ((keys_nodup m).subperm hkeys).perm_of_length_le hlen.ge
  cases hw : get m' key with
  | none => rfl
  | some w =>
    have hkey := hperm.mem_iff.mpr (mem_keys.mpr (has_eq_true.mpr ⟨w, hw⟩))
    obtain ⟨v, hv⟩ := has_eq_true.mp (mem_keys.mp hkey)
    simp [h] at hv

/-- Two records with the same names have as many. -/
theorem keys_length_eq {m : Record V} {m' : Record W} (h : ∀ key, has m key = has m' key) :
    (keys m).length = (keys m').length := by
  refine List.Perm.length_eq ?_
  rw [List.perm_ext_iff_of_nodup (keys_nodup m) (keys_nodup m')]
  intro key
  rw [mem_keys, mem_keys, h]

/-- Two lists of the same entries under distinct names read alike. -/
theorem get_perm {m m' : Record V} (hm : (m.map Prod.fst).Nodup) (h : m.Perm m')
    (key : JsString) : get m' key = get m key := by
  have hm' : (m'.map Prod.fst).Nodup := (h.map Prod.fst).nodup_iff.mp hm
  apply Option.ext
  intro v
  constructor
  · exact fun hv => get_eq_some_of_mem hm (h.mem_iff.mpr (mem_of_get hv))
  · exact fun hv => get_eq_some_of_mem hm' (h.mem_iff.mp (mem_of_get hv))

/-- Mapping the values and dropping shadowed entries commute. -/
theorem entries_mapValues (f : V → W) (m : Record V) :
    entries (mapValues f m) = mapValues f (entries m) := by
  induction m with
  | nil => rfl
  | cons e m ih =>
    obtain ⟨k, v⟩ := e
    have hstep : entries (mapValues f ((k, v) :: m)) =
        (k, f v) :: (entries (mapValues f m)).filter fun e => decide (e.1 ≠ k) := rfl
    rw [hstep, ih]
    simp only [entries, mapValues, List.map_cons, List.filter_map]
    rfl

/-- Mapping the values keeps the enumerated names. -/
@[simp] theorem keys_mapValues (f : V → W) (m : Record V) : keys (mapValues f m) = keys m := by
  unfold keys
  rw [entries_mapValues]
  simp [mapValues]

/-- Reading after a deletion. -/
@[simp] theorem get_erase (m : Record V) (key key' : JsString) :
    get (erase m key) key' = if key' = key then none else get m key' := by
  unfold erase
  split_ifs with h
  · subst h
    exact get_filter_none (by simp)
  · exact get_filter (by simp [h])

/-- Reading after adding a new property. -/
theorem get_insertOwn {m : Record V} {key : JsString} (hm : get m key = none) (value : V)
    (key' : JsString) :
    get (insertOwn key value m) key' = if key' = key then some value else get m key' := by
  induction m with
  | nil => simp [insertOwn, get, eq_comm]
  | cons e m ih =>
    obtain ⟨k, v⟩ := e
    have hk : k ≠ key := by
      rintro rfl
      simp [get] at hm
    have hrest : get m key = none := by simpa [get, hk] using hm
    unfold insertOwn
    split_ifs with hc hkey hkey
    · simp [get, hkey]
    · simp [get, Ne.symm hkey]
    · subst hkey
      simp [get, hk, ih hrest]
    · simp [get, hkey, ih hrest]

/-- Reading after replacing the value of an own name. -/
theorem get_replace {m : Record V} {key : JsString} (hm : has m key = true) (value : V)
    (key' : JsString) :
    get (m.map fun e => if e.1 = key then (key, value) else e) key' =
      if key' = key then some value else get m key' := by
  split_ifs with hkey
  · subst hkey
    obtain ⟨w, hw⟩ := has_eq_true.mp hm
    clear hm
    induction m with
    | nil => simp [get] at hw
    | cons e m ih =>
      obtain ⟨k, v⟩ := e
      by_cases hk : k = key'
      · simp [get, hk]
      · simp only [get, hk, if_false, List.map_cons] at hw ⊢
        exact ih hw
  · clear hm
    induction m with
    | nil => rfl
    | cons e m ih =>
      obtain ⟨k, v⟩ := e
      by_cases hk : k = key
      · subst hk
        simp only [List.map_cons, if_true, get, Ne.symm hkey, if_false]
        exact ih
      · simp only [List.map_cons, hk, if_false, get]
        split_ifs
        · rfl
        · exact ih

/-- Reading after defining a property. -/
@[simp] theorem get_setOwn (m : Record V) (key : JsString) (value : V) (key' : JsString) :
    get (setOwn m key value) key' = if key' = key then some value else get m key' := by
  unfold setOwn
  by_cases hhas : has m key = true
  · rw [if_pos hhas]
    exact get_replace hhas value key'
  · rw [if_neg hhas]
    exact get_insertOwn (by simpa [has] using hhas) value key'

/-- Nothing is replaced under a name that is not own. -/
theorem replace_of_not_has {m : Record V} {key : JsString} (hm : has m key = false) (value : V) :
    m.map (fun e => if e.1 = key then (key, value) else e) = m := by
  induction m with
  | nil => rfl
  | cons e m ih =>
    obtain ⟨k, v⟩ := e
    have hm' := has_eq_false.mp hm
    unfold get at hm'
    split_ifs at hm' with hk
    rw [List.map_cons, ih (has_eq_false.mpr hm'), if_neg hk]

/-- A new member is the only one of its name. -/
theorem replace_insertOwn {m : Record V} {key : JsString} (hm : has m key = false)
    (value value' : V) :
    (insertOwn key value m).map (fun e => if e.1 = key then (key, value') else e) =
      insertOwn key value' m := by
  induction m with
  | nil => simp [insertOwn]
  | cons e m ih =>
    have hrest := replace_of_not_has hm value'
    obtain ⟨k, v⟩ := e
    have hm' := has_eq_false.mp hm
    unfold get at hm'
    split_ifs at hm' with hk
    unfold insertOwn
    split_ifs
    · rw [List.map_cons, if_pos rfl, hrest]
    · rw [List.map_cons, if_neg hk, ih (has_eq_false.mpr hm')]

/-- Of two definitions of a property the second counts. -/
theorem setOwn_setOwn (m : Record V) (key : JsString) (value value' : V) :
    setOwn (setOwn m key value) key value' = setOwn m key value' := by
  have hhas : has (setOwn m key value) key = true := by simp [has]
  conv_lhs => rw [setOwn, if_pos hhas]
  unfold setOwn
  by_cases hm : has m key = true
  · rw [if_pos hm, if_pos hm, List.map_map]
    refine List.map_congr_left fun e _ => ?_
    by_cases he : e.1 = key <;> simp [he]
  · rw [if_neg hm, if_neg hm, replace_insertOwn (Bool.eq_false_iff.mpr hm)]

/-- Reading in joined records. -/
theorem get_append (m m' : Record V) (key : JsString) :
    get (m ++ m') key = (get m key).or (get m' key) := by
  induction m with
  | nil => simp [get]
  | cons e m ih =>
    obtain ⟨k, v⟩ := e
    simp only [List.cons_append, get]
    split_ifs
    · rfl
    · exact ih

/-- Reading after setting a map entry. -/
@[simp] theorem get_mapSet (m : Record V) (key : JsString) (value : V) (key' : JsString) :
    get (mapSet m key value) key' = if key' = key then some value else get m key' := by
  unfold mapSet
  by_cases hhas : has m key = true
  · rw [if_pos hhas]
    exact get_replace hhas value key'
  · rw [if_neg hhas, get_append]
    simp only [Bool.not_eq_true, has_eq_false] at hhas
    by_cases hkey : key' = key
    · simp [get, hkey, hhas]
    · simp [get, hkey, Ne.symm hkey]

/-- Setting a map entry keeps the names distinct. -/
theorem nodup_mapSet {m : Record V} (hm : (m.map Prod.fst).Nodup) (key : JsString) (value : V) :
    ((mapSet m key value).map Prod.fst).Nodup := by
  unfold mapSet
  split_ifs with hhas
  · have hnames : (m.map fun e => if e.1 = key then (key, value) else e).map Prod.fst =
        m.map Prod.fst := by
      rw [List.map_map]
      refine List.map_congr_left fun e _ => ?_
      simp only [Function.comp_apply]
      split_ifs with he
      · exact he.symm
      · rfl
    rw [hnames]
    exact hm
  · simp only [Bool.not_eq_true, has_eq_false] at hhas
    rw [List.map_append, List.nodup_append]
    refine ⟨hm, by simp, ?_⟩
    intro k hk k' hk'
    obtain rfl : k' = key := by simpa using hk'
    rintro rfl
    obtain ⟨e, he, rfl⟩ := List.mem_map.mp hk
    rw [get_eq_some_of_mem hm (v := e.2) he] at hhas
    simp at hhas

/-- Deleting a property keeps the names distinct. -/
theorem nodup_erase {m : Record V} (hm : (m.map Prod.fst).Nodup) (key : JsString) :
    ((erase m key).map Prod.fst).Nodup :=
  hm.sublist (List.Sublist.map _ List.filter_sublist)

/-- Reading after an assignment. -/
theorem get_assign (m : Record V) (key : JsString) (value : V) (key' : JsString) :
    get (assign m key value) key' =
      if key' = key ∧ (key = protoName → has m key = true) then some value else get m key' := by
  unfold assign
  by_cases hproto : key = protoName
  · cases hhas : has m key <;> simp [hproto]
  · simp [hproto]

/-- Reading a record built from entries: the last entry of a name counts. -/
theorem get_foldl_setOwn (es : List (JsString × V)) (m : Record V) (key : JsString) :
    get (es.foldl (fun m e => setOwn m e.1 e.2) m) key =
      ((get es.reverse key).or (get m key)) := by
  induction es using List.reverseRecOn with
  | nil => simp [get]
  | append_singleton es e ih =>
    obtain ⟨k, v⟩ := e
    simp only [List.foldl_append, List.foldl_cons, List.foldl_nil, get_setOwn, List.reverse_append,
      List.reverse_singleton, List.singleton_append, get]
    by_cases hk : k = key
    · simp [hk]
    · simp [hk, Ne.symm hk, ih]

/-- A record built from entries of distinct names reads as the entries do. -/
theorem get_fromEntries {es : List (JsString × V)} (hes : (es.map Prod.fst).Nodup)
    (key : JsString) : get (fromEntries es) key = get es key := by
  unfold fromEntries
  rw [get_foldl_setOwn, get_perm hes (List.reverse_perm es).symm]
  simp [get]

/-- Reading a record that is collected from what names have, under names that occur once. -/
theorem get_collected {names : List JsString} (hnames : names.Nodup) (value : JsString → Option V)
    (key : JsString) :
    get (fromEntries (names.filterMap fun name => (value name).map fun v => (name, v))) key =
      if key ∈ names then value key else none := by
  have hkeys : ((names.filterMap fun name => (value name).map fun v => (name, v)).map
      Prod.fst).Nodup := by
    refine hnames.sublist ?_
    clear hnames
    induction names with
    | nil => simp
    | cons name names ih =>
      rw [List.filterMap_cons]
      cases value name with
      | none => exact ih.cons name
      | some v => exact ih.cons_cons name
  rw [get_fromEntries hkeys]
  clear hkeys hnames
  induction names with
  | nil => rfl
  | cons name names ih =>
    rw [List.filterMap_cons]
    by_cases hname : name = key
    · subst hname
      cases hvalue : value name with
      | none => simp_all
      | some v => simp [get]
    · cases value name with
      | none => simp_all [eq_comm]
      | some v => simp_all [get, eq_comm]

end Record

/-- The names that an ordinary object inherits. -/
def inheritedNames : List JsString :=
  [js "constructor", js "__defineGetter__", js "__defineSetter__", js "hasOwnProperty",
    js "__lookupGetter__", js "__lookupSetter__", js "isPrototypeOf", js "propertyIsEnumerable",
    js "toString", js "valueOf", js "__proto__", js "toLocaleString"]

/-! ## Values -/

/-- A JSON-like value. -/
inductive JsValue where
  | null
  | bool (b : Bool)
  | num (n : JsNumber)
  | str (s : JsString)
  | arr (items : List JsValue)
  | obj (members : List (JsString × JsValue))

namespace JsValue

/-- A value of each shape, its parts already read: what a fold needs. -/
structure Algebra (T : Type) where
  /-- The result for `null`. -/
  null : T
  /-- The result for a boolean. -/
  bool : Bool → T
  /-- The result for a number. -/
  num : JsNumber → T
  /-- The result for a string. -/
  str : JsString → T
  /-- The result for an array, from the results of its items. -/
  arr : List T → T
  /-- The result for an object, from the results of its members. -/
  obj : Record T → T

mutual

/-- Read a whole value from its leaves up. -/
def fold {T : Type} (alg : Algebra T) : JsValue → T
  | .null => alg.null
  | .bool b => alg.bool b
  | .num n => alg.num n
  | .str s => alg.str s
  | .arr items => alg.arr (foldItems alg items)
  | .obj members => alg.obj (foldMembers alg members)

/-- Read the items of an array. -/
def foldItems {T : Type} (alg : Algebra T) : List JsValue → List T
  | [] => []
  | v :: items => fold alg v :: foldItems alg items

/-- Read the members of an object. -/
def foldMembers {T : Type} (alg : Algebra T) : List (JsString × JsValue) → Record T
  | [] => []
  | (k, v) :: members => (k, fold alg v) :: foldMembers alg members

end

/-- Reading the items is mapping the fold. -/
@[simp] theorem foldItems_eq_map {T : Type} (alg : Algebra T) (items : List JsValue) :
    foldItems alg items = items.map (fold alg) := by
  induction items with
  | nil => rfl
  | cons v items ih => rw [foldItems, ih, List.map_cons]

/-- Reading the members is mapping the fold over the values. -/
@[simp] theorem foldMembers_eq_mapValues {T : Type} (alg : Algebra T) (members : Record JsValue) :
    foldMembers alg members = Record.mapValues (fold alg) members := by
  induction members with
  | nil => rfl
  | cons e members ih =>
    obtain ⟨k, v⟩ := e
    rw [foldMembers, ih]
    rfl

/-- Folding an array. -/
theorem fold_arr {T : Type} (alg : Algebra T) (items : List JsValue) :
    fold alg (.arr items) = alg.arr (items.map (fold alg)) := by
  rw [fold, foldItems_eq_map]

/-- Folding an object. -/
theorem fold_obj {T : Type} (alg : Algebra T) (members : Record JsValue) :
    fold alg (.obj members) = alg.obj (Record.mapValues (fold alg) members) := by
  rw [fold, foldMembers_eq_mapValues]

mutual

/-- The induction over values, from the items and the members. -/
@[elab_as_elim] theorem induct {P : JsValue → Prop} (null : P .null) (bool : ∀ b, P (.bool b))
    (num : ∀ n, P (.num n)) (str : ∀ s, P (.str s))
    (arr : ∀ items, (∀ v ∈ items, P v) → P (.arr items))
    (obj : ∀ members : Record JsValue, (∀ e ∈ members, P e.2) → P (.obj members)) :
    ∀ value, P value
  | .null => null
  | .bool b => bool b
  | .num n => num n
  | .str s => str s
  | .arr items => arr items (induct_items null bool num str arr obj items)
  | .obj members => obj members (induct_members null bool num str arr obj members)

/-- The induction over the items of an array. -/
theorem induct_items {P : JsValue → Prop} (null : P .null) (bool : ∀ b, P (.bool b))
    (num : ∀ n, P (.num n)) (str : ∀ s, P (.str s))
    (arr : ∀ items, (∀ v ∈ items, P v) → P (.arr items))
    (obj : ∀ members : Record JsValue, (∀ e ∈ members, P e.2) → P (.obj members)) :
    ∀ items : List JsValue, ∀ v ∈ items, P v
  | [], _, h => absurd h List.not_mem_nil
  | w :: items, v, h => by
    rcases List.mem_cons.mp h with h | h
    · exact h ▸ induct null bool num str arr obj w
    · exact induct_items null bool num str arr obj items v h

/-- The induction over the members of an object. -/
theorem induct_members {P : JsValue → Prop} (null : P .null) (bool : ∀ b, P (.bool b))
    (num : ∀ n, P (.num n)) (str : ∀ s, P (.str s))
    (arr : ∀ items, (∀ v ∈ items, P v) → P (.arr items))
    (obj : ∀ members : Record JsValue, (∀ e ∈ members, P e.2) → P (.obj members)) :
    ∀ members : List (JsString × JsValue), ∀ e ∈ members, P e.2
  | [], _, h => absurd h List.not_mem_nil
  | (k, w) :: members, e, h => by
    rcases List.mem_cons.mp h with h | h
    · exact h ▸ induct null bool num str arr obj w
    · exact induct_members null bool num str arr obj members e h

end

mutual

/-- Whether two values are equal, entry by entry. -/
def beq : JsValue → JsValue → Bool
  | .null, .null => true
  | .bool a, .bool b => decide (a = b)
  | .num a, .num b => decide (a = b)
  | .str a, .str b => decide (a = b)
  | .arr xs, .arr ys => beqItems xs ys
  | .obj m, .obj m' => beqMembers m m'
  | _, _ => false

/-- Whether two lists of items are equal. -/
def beqItems : List JsValue → List JsValue → Bool
  | [], [] => true
  | x :: xs, y :: ys => beq x y && beqItems xs ys
  | _, _ => false

/-- Whether two lists of members are equal. -/
def beqMembers : List (JsString × JsValue) → List (JsString × JsValue) → Bool
  | [], [] => true
  | (k, x) :: m, (k', y) :: m' => decide (k = k') && beq x y && beqMembers m m'
  | _, _ => false

end

mutual

/-- The equality test decides equality of values. -/
theorem beq_iff : ∀ a b : JsValue, beq a b = true ↔ a = b
  | .null, b => by cases b <;> simp [beq]
  | .bool _, b => by cases b <;> simp [beq]
  | .num _, b => by cases b <;> simp [beq]
  | .str _, b => by cases b <;> simp [beq]
  | .arr xs, b => by cases b <;> simp [beq, beqItems_iff xs]
  | .obj m, b => by cases b <;> simp [beq, beqMembers_iff m]

/-- The equality test decides equality of lists of items. -/
theorem beqItems_iff : ∀ xs ys : List JsValue, beqItems xs ys = true ↔ xs = ys
  | [], ys => by cases ys <;> simp [beqItems]
  | x :: xs, ys => by cases ys <;> simp [beqItems, beq_iff x, beqItems_iff xs]

/-- The equality test decides equality of lists of members. -/
theorem beqMembers_iff :
    ∀ m m' : List (JsString × JsValue), beqMembers m m' = true ↔ m = m'
  | [], m' => by cases m' <;> simp [beqMembers]
  | (k, x) :: m, m' => by
    rcases m' with _ | ⟨⟨k', y⟩, m'⟩
    · simp [beqMembers]
    · simp [beqMembers, beq_iff x, beqMembers_iff m]

end

instance : DecidableEq JsValue := fun a b => decidable_of_iff _ (beq_iff a b)

end JsValue

end Js
