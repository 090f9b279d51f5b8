import T3x.Yops.InPlace
import T3x.Yops.Recipes

/-!
# Objects that assignments fill

An assignment under `__proto__` sets the prototype of a plain object, and defines
a member only once the inherited accessor is hidden. Assignments of entries give
what definitions of them give where no entry goes to the accessor for good.
-/

namespace T3x.Yops

open Js

variable {own entries : Record JsValue} {object : Filled}

/-! ## What assignments define -/

/-- The values that the entries have under `__proto__`. -/
def protoValues (entries : Record JsValue) : List JsValue :=
  entries.filterMap fun e => if e.1 = Record.protoName then some e.2 else none

/-- A prototype through which the inherited accessor is not found. -/
def hidesAccessor : JsValue → Bool
  | .null => true
  | .obj members => Record.has members Record.protoName
  | _ => false

/-- The assignments define the name `__proto__` if they assign it: the object had it, or an
assignment before the last one gave the object a prototype that hides the accessor. -/
def Assigns (own entries : Record JsValue) : Prop :=
  Record.has own Record.protoName = true ∨ protoValues entries = [] ∨
    (protoValues entries).dropLast.any hidesAccessor = true

/-- Whether assignments define the name is decided by the values. -/
instance (own entries : Record JsValue) : Decidable (Assigns own entries) :=
  inferInstanceAs (Decidable (_ ∨ _ ∨ _))

/-- The values under `__proto__` with one more entry. -/
theorem protoValues_concat (entries : Record JsValue) (e : JsString × JsValue) :
    protoValues (entries ++ [e]) =
      protoValues entries ++ if e.1 = Record.protoName then [e.2] else [] := by
  rw [protoValues, List.filterMap_append]
  congr 1
  by_cases hkey : e.1 = Record.protoName <;> simp [hkey]

/-- One more assignment of `__proto__` defines it where the accessor is hidden. -/
theorem assigns_concat_iff {e : JsString × JsValue} (hkey : e.1 = Record.protoName) :
    Assigns own (entries ++ [e]) ↔ Record.has own Record.protoName = true ∨
      (protoValues entries).any hidesAccessor = true := by
  simp [Assigns, protoValues_concat, hkey]

/-- One more assignment of another name changes nothing. -/
theorem assigns_concat_iff_of_ne {e : JsString × JsValue} (hkey : e.1 ≠ Record.protoName) :
    Assigns own (entries ++ [e]) ↔ Assigns own entries := by
  unfold Assigns
  rw [protoValues_concat, if_neg hkey, List.append_nil]

/-- Nothing is read under `__proto__` that no entry and no member has. -/
theorem get_proto_eq_none (hown : Record.has own Record.protoName = false)
    (hvalues : protoValues entries = []) :
    Record.get (entries.foldl (fun m e => Record.setOwn m e.1 e.2) own) Record.protoName =
      none := by
  induction entries using List.reverseRecOn with
  | nil => exact Record.has_eq_false.mp hown
  | append_singleton entries e ih =>
    rw [protoValues_concat] at hvalues
    obtain ⟨hvalues, hlast⟩ := List.append_eq_nil_iff.mp hvalues
    have hkey : e.1 ≠ Record.protoName := by
      intro heq
      rw [if_pos heq] at hlast
      cases hlast
    rw [List.foldl_append, List.foldl_cons, List.foldl_nil, Record.get_setOwn,
      if_neg (Ne.symm hkey)]
    exact ih hvalues

/-- Something is read under `__proto__` that the assignments do not define. -/
theorem get_proto_ne_none (h : ¬ Assigns own entries) :
    Record.get (entries.foldl (fun m e => Record.setOwn m e.1 e.2) own) Record.protoName ≠
      none := by
  induction entries using List.reverseRecOn with
  | nil =>
    exact absurd (.inr (.inl rfl)) h
  | append_singleton entries e ih =>
    rw [List.foldl_append, List.foldl_cons, List.foldl_nil, Record.get_setOwn]
    split_ifs with hkey
    · simp
    · exact ih ((assigns_concat_iff_of_ne (Ne.symm hkey)).not.mp h)

/-- What an object holds after assignments of entries. -/
structure FilledBy (own entries : Record JsValue) (object : Filled) : Prop where
  /-- The accessor is hidden by an own member or by a prototype. -/
  hides_iff : object.hides Record.protoName = true ↔ Record.has own Record.protoName = true ∨
    (protoValues entries).any hidesAccessor = true
  /-- Every other name is defined, and `__proto__` where the assignments define it. -/
  get_eq : ∀ key, Record.get object.own key =
    if key = Record.protoName ∧ ¬ Assigns own entries then none
    else Record.get (entries.foldl (fun m e => Record.setOwn m e.1 e.2) own) key

/-- An own `__proto__` hides the accessor. -/
theorem Filled.hides_of_has (h : Record.has object.own Record.protoName = true) :
    object.hides Record.protoName = true := by
  simp [Filled.hides, h]

/-- Without an own `__proto__` the prototype alone hides the accessor. -/
theorem Filled.hides_prototype {members : Record JsValue} {value : JsValue}
    (h : Record.has members Record.protoName = false) :
    (⟨members, some value⟩ : Filled).hides Record.protoName = hidesAccessor value := by
  cases value <;> simp [Filled.hides, hidesAccessor, h]

/-- Reading a record with one more entry. -/
theorem get_foldl_concat (own entries : Record JsValue) (e : JsString × JsValue)
    (key : JsString) :
    Record.get ((entries ++ [e]).foldl (fun m e => Record.setOwn m e.1 e.2) own) key =
      if key = e.1 then some e.2
      else Record.get (entries.foldl (fun m e => Record.setOwn m e.1 e.2) own) key := by
  rw [List.foldl_append, List.foldl_cons, List.foldl_nil, Record.get_setOwn]

/-- Another name is defined, and the accessor stays as it is. -/
theorem FilledBy.assign_other (h : FilledBy own entries object) {e : JsString × JsValue}
    (hkey : e.1 ≠ Record.protoName) :
    FilledBy own (entries ++ [e]) (object.assign e.1 e.2) := by
  have hassign : object.assign e.1 e.2 =
      { object with own := Record.setOwn object.own e.1 e.2 } := if_pos (.inl hkey)
  have hhas : Record.has (Record.setOwn object.own e.1 e.2) Record.protoName =
      Record.has object.own Record.protoName := by
    simp [Record.has, Ne.symm hkey]
  rw [hassign]
  refine ⟨?_, fun key => ?_⟩
  · rw [protoValues_concat, if_neg hkey, List.append_nil, ← h.hides_iff]
    simp only [Filled.hides, hhas]
  · rw [Record.get_setOwn, h.get_eq, get_foldl_concat]
    simp only [assigns_concat_iff_of_ne hkey]
    by_cases heq : key = e.1
    · subst heq
      simp [hkey]
    · simp only [if_neg heq]

/-- Where the accessor is hidden the name is defined. -/
theorem FilledBy.assign_hidden (h : FilledBy own entries object) {e : JsString × JsValue}
    (hkey : e.1 = Record.protoName) (hhides : object.hides Record.protoName = true) :
    FilledBy own (entries ++ [e]) (object.assign e.1 e.2) := by
  have hassign : object.assign e.1 e.2 =
      { object with own := Record.setOwn object.own e.1 e.2 } :=
    if_pos (.inr (by rwa [hkey]))
  have hassigns : Assigns own (entries ++ [e]) :=
    (assigns_concat_iff hkey).mpr (h.hides_iff.mp hhides)
  rw [hassign]
  refine ⟨iff_of_true (Filled.hides_of_has (by simp [Record.has, hkey])) ?_, fun key => ?_⟩
  · rw [protoValues_concat, List.any_append, Bool.or_eq_true]
    exact (h.hides_iff.mp hhides).imp_right .inl
  · rw [if_neg (not_and_not_right.mpr fun _ => hassigns), Record.get_setOwn, get_foldl_concat]
    by_cases heq : key = e.1
    · rw [if_pos heq, if_pos heq]
    · rw [if_neg heq, if_neg heq, h.get_eq,
        if_neg fun hnot : _ ∧ _ => heq (hnot.1.trans hkey.symm)]

/-- Where the accessor is not hidden it takes the value, and nothing is defined. -/
theorem FilledBy.assign_exposed (h : FilledBy own entries object) {e : JsString × JsValue}
    (hkey : e.1 = Record.protoName) (hhides : ¬ object.hides Record.protoName = true) :
    FilledBy own (entries ++ [e]) (object.assign e.1 e.2) := by
  have hnone := h.hides_iff.not.mp hhides
  obtain ⟨hown, hany⟩ := not_or.mp hnone
  have hlost : ¬ Assigns own (entries ++ [e]) := (assigns_concat_iff hkey).not.mpr hnone
  have hproto : Record.get object.own Record.protoName = none := by
    rw [h.get_eq]
    split_ifs with hassigns
    · rfl
    · refine get_proto_eq_none (Bool.eq_false_iff.mpr hown) ?_
      rcases not_not.mp (not_and.mp hassigns rfl) with hhas | hnil | hlast
      · exact absurd hhas hown
      · exact hnil
      · obtain ⟨value, hmem, hvalue⟩ := List.any_eq_true.mp hlast
        exact absurd (List.any_eq_true.mpr ⟨value, List.mem_of_mem_dropLast hmem, hvalue⟩) hany
  have hassign : object.assign e.1 e.2 =
      if e.2 = .null ∨ isObject e.2 then { object with prototype := some e.2 } else object :=
    if_neg (not_or.mpr ⟨not_not.mpr hkey, by rwa [hkey]⟩)
  refine ⟨?_, fun key => ?_⟩
  · rw [hassign, protoValues_concat, if_pos hkey, List.any_append, Bool.eq_false_iff.mpr hown,
      Bool.eq_false_iff.mpr hany]
    split_ifs with hobject
    · rw [Filled.hides_prototype (Record.has_eq_false.mpr hproto)]
      simp
    · have hscalar : hidesAccessor e.2 = false := by
        cases hvalue : e.2 <;> simp_all [hidesAccessor, isObject]
      simp [hhides, hscalar]
  · have hsame : (object.assign e.1 e.2).own = object.own := by
      rw [hassign]
      split_ifs <;> rfl
    rw [hsame, get_foldl_concat]
    by_cases heq : key = Record.protoName
    · rw [heq, hproto, if_pos ⟨rfl, hlost⟩]
    · rw [if_neg fun hnot : _ ∧ _ => heq hnot.1, if_neg fun heq' => heq (heq'.trans hkey),
        h.get_eq, if_neg fun hnot : _ ∧ _ => heq hnot.1]

/-- One more assignment. -/
theorem FilledBy.assign (h : FilledBy own entries object) (e : JsString × JsValue) :
    FilledBy own (entries ++ [e]) (object.assign e.1 e.2) := by
  by_cases hkey : e.1 = Record.protoName
  · by_cases hhides : object.hides Record.protoName = true
    · exact h.assign_hidden hkey hhides
    · exact h.assign_exposed hkey hhides
  · exact h.assign_other hkey

/-- What is read of an object after assignments. -/
theorem get_assignAll (own entries : Record JsValue) (key : JsString) :
    Record.get (assignAll own entries) key =
      if key = Record.protoName ∧ ¬ Assigns own entries then none
      else Record.get (entries.foldl (fun m e => Record.setOwn m e.1 e.2) own) key := by
  have hfilled : FilledBy own entries
      (entries.foldl (fun object e => object.assign e.1 e.2) ⟨own, none⟩) := by
    induction entries using List.reverseRecOn with
    | nil =>
      refine ⟨by simp [Filled.hides, protoValues], fun key => ?_⟩
      rw [if_neg fun hnot => hnot.2 (.inr (.inl rfl))]
      rfl
    | append_singleton entries e ih =>
      rw [List.foldl_append]
      exact ih.assign e
  exact hfilled.get_eq key

/-- Assignments give what definitions give exactly if they define `__proto__` where they assign
it. -/
theorem same_assignAll_iff {target : Record JsValue}
    (h : ∀ key, Record.get target key =
      Record.get (entries.foldl (fun m e => Record.setOwn m e.1 e.2) own) key) :
    JsValue.Same (.obj (assignAll own entries)) (.obj target) ↔ Assigns own entries := by
  constructor
  · intro hsame
    by_contra hlost
    have hkey := JsValue.denote_obj_eq_iff.mp hsame Record.protoName
    rw [get_assignAll, if_pos ⟨rfl, hlost⟩, h, Option.map_none] at hkey
    exact get_proto_ne_none hlost (Option.map_eq_none_iff.mp hkey.symm)
  · intro hassigns
    refine same_obj_of_get fun key => ?_
    rw [get_assignAll, if_neg fun hnot => hnot.2 hassigns, h]

section Groups

variable {T : Type} {groups : Record T} {rest target : Record JsValue}

/-- Groups of distinct names assign `__proto__` once at most. -/
theorem protoValues_mapValues (f : T → JsValue) (h : (groups.map Prod.fst).Nodup) :
    protoValues (Record.mapValues f groups) =
      ((Record.get groups Record.protoName).map f).toList := by
  induction groups with
  | nil => rfl
  | cons e groups ih =>
    obtain ⟨hnot, hnodup⟩ := List.nodup_cons.mp h
    have hcons : protoValues (Record.mapValues f (e :: groups)) =
        (if e.1 = Record.protoName then [f e.2] else []) ++
          protoValues (Record.mapValues f groups) := by
      by_cases hkey : e.1 = Record.protoName <;> simp [protoValues, Record.mapValues, hkey]
    rw [hcons, ih hnodup, Record.get]
    by_cases hkey : e.1 = Record.protoName
    · have hnone : Record.get groups Record.protoName = none := by
        by_contra hsome
        obtain ⟨value, hvalue⟩ := Option.ne_none_iff_exists'.mp hsome
        exact hnot (hkey ▸ List.mem_map_of_mem (Record.mem_of_get hvalue))
      simp [hkey, hnone]
    · simp [hkey]

/-- Whether assignments define what they assign does not depend on the values of groups that are
assigned last. -/
theorem assigns_groups_congr (f g : T → JsValue) (h : (groups.map Prod.fst).Nodup) :
    Assigns own (rest ++ Record.mapValues f groups) ↔
      Assigns own (rest ++ Record.mapValues g groups) := by
  have happend : ∀ f : T → JsValue, protoValues (rest ++ Record.mapValues f groups) =
      protoValues rest ++ ((Record.get groups Record.protoName).map f).toList := by
    intro f
    rw [← protoValues_mapValues f h, protoValues, List.filterMap_append]
    rfl
  unfold Assigns
  rw [happend, happend]
  cases Record.get groups Record.protoName with
  | none => rfl
  | some value => simp

/-- Reading a record to which groups of distinct names are added. -/
theorem get_foldl_groups (f : T → JsValue) (h : (groups.map Prod.fst).Nodup) (key : JsString) :
    Record.get ((rest ++ Record.mapValues f groups).foldl
        (fun m e => Record.setOwn m e.1 e.2) own) key =
      ((Record.get groups key).map f).or
        (Record.get (rest.foldl (fun m e => Record.setOwn m e.1 e.2) own) key) := by
  have hnodup : ((Record.mapValues f groups).map Prod.fst).Nodup := by
    rw [Record.mapValues, List.map_map]
    exact h
  have hreverse := Record.get_perm hnodup (List.reverse_perm _).symm key
  rw [Record.get_mapValues] at hreverse
  rw [List.foldl_append, Record.get_foldl_setOwn, hreverse]

/-- Assignments that end with groups give what definitions give exactly if they define what they
assign and the groups are the same. -/
theorem same_assignAll_groups_iff {f g : T → JsValue} (hnames : (groups.map Prod.fst).Nodup)
    (h : ∀ key, Record.get target key =
      Record.get ((rest ++ Record.mapValues g groups).foldl
        (fun m e => Record.setOwn m e.1 e.2) own) key) :
    JsValue.Same (.obj (assignAll own (rest ++ Record.mapValues f groups))) (.obj target) ↔
      Assigns own (rest ++ Record.mapValues g groups) ∧
        ∀ e ∈ groups, JsValue.Same (f e.2) (g e.2) := by
  rw [← assigns_groups_congr f g hnames, JsValue.Same, JsValue.denote_obj_eq_iff]
  constructor
  · intro hsame
    have hassigns : Assigns own (rest ++ Record.mapValues f groups) := by
      by_contra hlost
      have hkey := hsame Record.protoName
      rw [get_assignAll, if_pos ⟨rfl, hlost⟩, h, get_foldl_groups g hnames, Option.map_none] at hkey
      refine get_proto_ne_none hlost ?_
      rw [get_foldl_groups f hnames]
      cases hgroup : Record.get groups Record.protoName with
      | none => simpa [hgroup] using hkey.symm
      | some value => simp [hgroup] at hkey
    refine ⟨hassigns, fun e he => ?_⟩
    have hkey := hsame e.1
    rw [get_assignAll, if_neg (not_and_not_right.mpr fun _ => hassigns), h,
      get_foldl_groups f hnames, get_foldl_groups g hnames,
      Record.get_eq_some_of_mem hnames he] at hkey
    exact Option.some.inj hkey
  · rintro ⟨hassigns, hgroups⟩ key
    rw [get_assignAll, if_neg (not_and_not_right.mpr fun _ => hassigns), h,
      get_foldl_groups f hnames, get_foldl_groups g hnames]
    cases hgroup : Record.get groups key with
    | none => rfl
    | some value => exact congrArg some (hgroups _ (Record.mem_of_get hgroup))

end Groups

end T3x.Yops
