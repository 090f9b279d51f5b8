import T3x.Reconciliation.Laws
import T3x.Transition.Canonical

/-!
# Conflict pointers and their resolution

A conflict is reported with a pointer into the documents. Resolving conflicts
replaces values at their pointers in the merged document. The pointer of a
location reads back as the location, with one exception: the pointer of the
root member with the empty name is the pointer of the whole document.
-/

namespace T3x.Reconciliation

open Js ThreeWay T3x.Transition

/-! ## Pointers -/

/-- A part of a pointer as a key. -/
def unescapeKey (part : JsString) : JsString :=
  replaceAll (js "~0") (js "~") (replaceAll (js "~1") (js "/") part)

/-- The keys of a pointer that is not the whole document's. -/
def segments (pointer : JsString) : List JsString :=
  (split (unit '/') (pointer.drop 1)).map unescapeKey

/-- Where a compared value comes from. -/
inductive Source where
  | base
  | workspaceDraft
  | branch
  | resolution
  deriving DecidableEq

/-- The text of a source. -/
def Source.text : Source → JsString
  | .base => js "base"
  | .workspaceDraft => js "workspace_draft"
  | .branch => js "branch"
  | .resolution => js "resolution"

/-- `WorkspaceReconciliationValue`. -/
structure ReconciliationValue where
  /-- Where the value comes from. -/
  source : Source
  /-- Whether there is a value. -/
  present : Bool
  /-- The value. -/
  value : Option JsValue

/-- The keys of a pointer; the pointer `/` has none. -/
def pointerSegments (pointer : JsString) : Except JsString (List JsString) :=
  if pointer = js "/" then .ok []
  else if (js "/").isPrefixOf pointer then .ok (segments pointer)
  else .error (js "Invalid conflict path: " ++ pointer)

/-- `pointerValue(document, pointer, source)`. -/
def pointerValue (document : JsValue) (pointer : JsString) (source : Source) :
    ReconciliationValue :=
  if pointer = js "/" then ⟨source, true, some document⟩
  else
    match valueAt (some document) (segments pointer) with
    | none => ⟨source, false, none⟩
    | some value => ⟨source, true, some value⟩

/-- The value that a resolution writes. -/
def selectedValue (selected : ReconciliationValue) : Option JsValue :=
  if selected.present then selected.value.map JsValue.jsonClone else none

/-- The members of a mapping after the value of one key became `next`. -/
def replaceMember (localeCompare : JsString → JsString → Int) (members : Record JsValue)
    (key : JsString) (next : Option JsValue) : Record JsValue :=
  let entries := Record.entries members
  let changed := match next with
    | none => Record.erase entries key
    | some value => Record.mapSet entries key value
  Record.fromEntries (sortBy (fun a b => localeCompare a.1 b.1) changed)

/-- The visit of `replacePointer` along the remaining keys. -/
def visit (localeCompare : JsString → JsString → Int) (pointer : JsString)
    (selected : ReconciliationValue) :
    List JsString → Option JsValue → Except JsString (Option JsValue)
  | [], _ => .ok (selectedValue selected)
  | key :: rest, some (.obj members) =>
    match visit localeCompare pointer selected rest (Record.get members key) with
    | .error e => .error e
    | .ok next => .ok (some (.obj (replaceMember localeCompare members key next)))
  | _, _ =>
    .error (js "Conflict path " ++ pointer ++ js " is no longer a mapping path")

/-- `value ?? {}`. -/
def orEmpty : Option JsValue → JsValue
  | none => .obj []
  | some .null => .obj []
  | some value => value

/-- `replacePointer(document, pointer, selected)`. -/
def replacePointer (localeCompare : JsString → JsString → Int) (document : Option JsValue)
    (pointer : JsString) (selected : ReconciliationValue) : Except JsString JsValue :=
  match pointerSegments pointer with
  | .error e => .error e
  | .ok keys =>
    match visit localeCompare pointer selected keys document with
    | .error e => .error e
    | .ok result => .ok (orEmpty result)

/-- The escape of one code unit of a key. -/
def escapePointerUnit (u : UInt16) : JsString :=
  if u = unit '~' then js "~0" else if u = unit '/' then js "~1" else [u]

/-- A key is escaped unit by unit. -/
theorem escapeKey_eq_flatMap (key : JsString) : escapeKey key = key.flatMap escapePointerUnit := by
  unfold escapeKey
  rw [show js "/" = [unit '/'] from rfl, show js "~" = [unit '~'] from rfl, replaceAll_singleton,
    replaceAll_singleton, List.flatMap_assoc]
  congr 1
  funext u
  unfold escapePointerUnit
  by_cases htilde : u = unit '~'
  · rw [if_pos htilde, if_pos htilde]
    decide
  · rw [if_neg htilde, if_neg htilde]
    simp

/-- An escaped key reads back as the key. -/
theorem unescapeKey_escapeKey (key : JsString) : unescapeKey (escapeKey key) = key := by
  have hslash : replaceAll (js "~1") (js "/") (key.flatMap escapePointerUnit) =
      key.flatMap fun u => if u = unit '~' then js "~0" else [u] := by
    induction key with
    | nil => rfl
    | cons u key ih =>
      rw [List.flatMap_cons, List.flatMap_cons, ← ih]
      unfold escapePointerUnit
      by_cases htilde : u = unit '~'
      · rw [if_pos htilde, if_pos htilde]
        exact (replaceAll_cons_cons_of_ne (by decide) _ _).trans
          (congrArg _ (replaceAll_cons_of_ne (by decide) _ _))
      · rw [if_neg htilde, if_neg htilde]
        by_cases hu : u = unit '/'
        · rw [if_pos hu, hu]
          exact replaceAll_cons_cons _ _ _ _
        · rw [if_neg hu]
          exact replaceAll_cons_of_ne htilde _ _
  unfold unescapeKey
  rw [escapeKey_eq_flatMap, hslash]
  clear hslash
  induction key with
  | nil => rfl
  | cons u key ih =>
    rw [List.flatMap_cons]
    by_cases htilde : u = unit '~'
    · rw [if_pos htilde]
      exact (replaceAll_cons_cons _ _ _ _).trans (by rw [htilde]; exact congrArg _ ih)
    · rw [if_neg htilde]
      exact (replaceAll_cons_of_ne htilde _ _).trans (congrArg _ ih)

/-- An escaped key holds no slash. -/
theorem slash_not_mem_escapeKey (key : JsString) : unit '/' ∉ escapeKey key := by
  rw [escapeKey_eq_flatMap]
  simp only [List.mem_flatMap, not_exists, not_and]
  intro u _
  unfold escapePointerUnit
  split_ifs with htilde hslash
  · decide
  · decide
  · simpa using Ne.symm hslash

/-- The pointer of a location below the root, behind its first slash. -/
theorem pointer_drop_one {loc : Location} (hloc : loc ≠ []) :
    (pointer loc).drop 1 = join (unit '/') (loc.map escapeKey) := by
  obtain ⟨key, rest, rfl⟩ := List.exists_cons_of_ne_nil hloc
  rw [List.map_cons, join_cons, List.flatMap_map]
  rfl

/-- The pointer of a location below the root reads back as the location. -/
theorem segments_pointer {loc : Location} (hloc : loc ≠ []) : segments (pointer loc) = loc := by
  unfold segments
  rw [pointer_drop_one hloc, split_join (by simpa using hloc) ?_, List.map_map]
  · refine (List.map_congr_left fun key _ => ?_).trans (List.map_id loc)
    exact unescapeKey_escapeKey key
  · intro part hpart
    obtain ⟨key, -, rfl⟩ := List.mem_map.mp hpart
    exact slash_not_mem_escapeKey key

/-- The pointer of the whole document is that of no location but the root and
its member with the empty name. -/
theorem pointer_ne_slash {loc : Location} (hempty : loc ≠ [[]]) : pointer loc ≠ js "/" := by
  intro h
  by_cases hloc : loc = []
  · subst hloc
    exact absurd h (by decide)
  · have hsegments := segments_pointer hloc
    rw [h] at hsegments
    exact hempty (hsegments.symm.trans (by decide))

/-- A conflict below the root is reported with the pointer of its location. -/
theorem conflictPath_of_ne_nil {loc : Location} (hloc : loc ≠ []) :
    conflictPath loc = pointer loc := by
  obtain ⟨key, rest, rfl⟩ := List.exists_cons_of_ne_nil hloc
  simp [conflictPath, reportedPath, pointer]

/-- The pointer of a conflict reads back as its location, unless that is the
root member with the empty name. -/
theorem pointerSegments_conflictPath {loc : Location} (hempty : loc ≠ [[]]) :
    pointerSegments (conflictPath loc) = .ok loc := by
  by_cases hloc : loc = []
  · subst hloc
    rfl
  · rw [conflictPath_of_ne_nil hloc, pointerSegments, if_neg (pointer_ne_slash hempty),
      segments_pointer hloc]
    obtain ⟨key, rest, rfl⟩ := List.exists_cons_of_ne_nil hloc
    rw [if_pos]
    exact List.isPrefixOf_iff_prefix.mpr ⟨_, rfl⟩

/-! ## Replacing and reading back -/

variable {localeCompare : JsString → JsString → Int} {selected : ReconciliationValue}

/-- A value that a resolution writes reads as the selected value. -/
theorem reading_selectedValue (hpresent : selected.present = selected.value.isSome) :
    reading JsNumber.dropZeroSign (selectedValue selected) =
      reading JsNumber.dropZeroSign selected.value := by
  unfold selectedValue
  cases hvalue : selected.value with
  | none => simp [hpresent, hvalue]
  | some value =>
    rw [hpresent, hvalue, Option.isSome_some, if_pos rfl]
    exact congrArg some (JsValue.denote_jsonClone value)

/-- The members of a mapping after one changed: the others are as they were. -/
theorem get_replaceMember (members : Record JsValue) (key : JsString) (next : Option JsValue)
    (key' : JsString) :
    Record.get (replaceMember localeCompare members key next) key' =
      if key' = key then next else Record.get members key' := by
  have hnames : ((Record.entries members).map Prod.fst).Nodup := Record.keys_nodup members
  unfold replaceMember
  simp only
  cases next with
  | none =>
    have hnodup := Record.nodup_erase hnames key
    rw [Record.get_fromEntries ((sortBy_perm _ _).map Prod.fst |>.nodup_iff.mpr hnodup),
      Record.get_perm hnodup (sortBy_perm _ _).symm, Record.get_erase, Record.get_entries]
  | some value =>
    have hnodup := Record.nodup_mapSet hnames key value
    rw [Record.get_fromEntries ((sortBy_perm _ _).map Prod.fst |>.nodup_iff.mpr hnodup),
      Record.get_perm hnodup (sortBy_perm _ _).symm, Record.get_mapSet, Record.get_entries]

variable (localeCompare)

/-- Replacing along keys that lead through mappings patches the one location. -/
theorem visit_patches (pointer : JsString) {loc : Location} {value : Option JsValue}
    (hpresent : selected.present = selected.value.isSome)
    (habove : ∀ anc, anc <+: loc → anc ≠ loc → isObj (valueAt value anc) = true) :
    ∃ result, visit localeCompare pointer selected loc value = .ok result ∧
      (loc ≠ [] → isObj result = true) ∧
      IsPatched JsNumber.dropZeroSign value (· = loc) (fun _ => selected.value) result := by
  induction loc generalizing value with
  | nil =>
    refine ⟨selectedValue selected, rfl, fun h => absurd rfl h, ?_, ?_, ?_⟩
    · rintro _ rfl
      exact reading_selectedValue hpresent
    · intro loc h
      exact absurd List.nil_prefix (h [] rfl).1
    · rintro loc _ rfl hpre hne
      exact absurd (List.prefix_nil.mp hpre) hne
  | cons key rest ih =>
    obtain ⟨members, rfl⟩ := isObj_iff.mp (habove [] List.nil_prefix (by simp))
    have hbelow : ∀ anc, anc <+: rest → anc ≠ rest →
        isObj (valueAt (Record.get members key) anc) = true := fun anc hpre hne =>
      habove (key :: anc) ((List.prefix_cons_inj key).mpr hpre)
        fun heq => hne (List.cons.inj heq).2
    obtain ⟨next, hnext, -, hpatched⟩ := ih hbelow
    refine ⟨some (.obj (replaceMember localeCompare members key next)), by simp only [visit, hnext],
      fun _ => rfl, ?_, ?_, ?_⟩
    · rintro _ rfl
      rw [valueAt_cons, member_obj, get_replaceMember, if_pos rfl]
      exact hpatched.at_patched rest rfl
    · intro loc h
      rcases loc with _ | ⟨key', loc⟩
      · exact absurd List.nil_prefix (h _ rfl).2
      rw [valueAt_cons, valueAt_cons, member_obj, member_obj, get_replaceMember]
      split_ifs with hkey
      · subst hkey
        refine hpatched.elsewhere loc ?_
        rintro _ rfl
        simpa [List.prefix_cons_inj] using h _ rfl
      · rfl
    · rintro loc _ rfl hpre hne
      rcases loc with _ | ⟨key', loc⟩
      · rfl
      obtain ⟨rfl, hpre'⟩ := List.cons_prefix_cons.mp hpre
      rw [valueAt_cons, member_obj, get_replaceMember, if_pos rfl]
      exact hpatched.above loc rest rfl hpre' fun heq => hne (by rw [heq])

/-- Resolving one conflict below the root, other than at the member with the
empty name: the value at its location is replaced and its pointer reads back
the value written. -/
theorem replacePointer_patches {document : Option JsValue} {loc : Location} (hroot : loc ≠ [])
    (hempty : loc ≠ [[]]) (hpresent : selected.present = selected.value.isSome)
    (habove : ∀ anc, anc <+: loc → anc ≠ loc → isObj (valueAt document anc) = true) :
    ∃ result,
      replacePointer localeCompare document (conflictPath loc) selected = .ok result ∧
      IsPatched JsNumber.dropZeroSign document (· = loc) (fun _ => selected.value)
        (some result) := by
  obtain ⟨result, hvisit, hobj, hpatched⟩ := visit_patches localeCompare
    (conflictPath loc) hpresent habove
  obtain ⟨members, rfl⟩ := isObj_iff.mp (hobj hroot)
  refine ⟨.obj members, ?_, hpatched⟩
  simp only [replacePointer, pointerSegments_conflictPath hempty, hvisit, orEmpty]

/-- The pointer of a location below the root, other than the member with the
empty name, reads the value at the location. -/
theorem pointerValue_conflictPath {document : JsValue} {loc : Location} (hroot : loc ≠ [])
    (hempty : loc ≠ [[]]) (source : Source) :
    pointerValue document (conflictPath loc) source =
      ⟨source, (valueAt (some document) loc).isSome, valueAt (some document) loc⟩ := by
  unfold pointerValue
  rw [conflictPath_of_ne_nil hroot, if_neg (pointer_ne_slash hempty), segments_pointer hroot]
  cases valueAt (some document) loc <;> rfl

end T3x.Reconciliation
