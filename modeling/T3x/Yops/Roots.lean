import T3x.Yops.Forms

/-!
# Edits of root keys

A root key that the path parser reads as itself addresses the member of a
mapping document under it. Forms of an assertion of what is there and of a write
or a removal leave the other members as they are and put what is asked for.
-/

namespace T3x.Yops

open Js T3x.Run

/-- The path parser reads the key as itself. -/
def IsRootKey (key : JsString) : Prop := tryParsePath key = .ok [.key key]

/-- A key that is read as itself is not empty. -/
theorem IsRootKey.ne_nil {key : JsString} (h : IsRootKey key) : key ≠ [] := by
  rintro rfl
  cases h

section

variable (issueMessage : JsValue → JsString) {key : JsString} {map : Record JsValue}
  {form value : JsValue} {forms : List JsValue} {before after : Option JsValue}

/-- A text field that is absent has no text. -/
theorem optionalText_of_none {fields : Record JsValue} {name : String}
    (h : Record.get fields (js name) = none) : optionalText fields name = none := by
  unfold optionalText
  rw [h]
  rfl

/-- At a root key is the member under it. -/
theorem resolvePath_rootKey (h : IsRootKey key) :
    resolvePath (.obj map) key = Record.get map key := by
  rw [resolvePath, parsePath_of_tryParsePath h]
  cases hget : Record.get map key <;> simp [resolvePathSegments, PathSegment.select, hget]

/-- A write at a root key sets the member under it. -/
theorem setAtPath_rootKey (h : IsRootKey key) :
    setAtPath (.obj map) key value = .ok (.obj (Record.setOwn map key value)) := by
  rw [setAtPath, parsePath_of_tryParsePath h, setAtPathSegments, deepClone_eq, deepClone_eq]
  rfl

/-- A form of an assertion of the value under a root key holds. -/
theorem applyStep_assertEquals_form (hkey : IsRootKey key)
    (hform : JsValue.Same form (assertEquals key value)) {current : JsValue}
    (hcurrent : Record.get map key = some current) (hsame : JsValue.Same current value) :
    applyStep issueMessage form (.obj map) = some (.obj map) := by
  obtain ⟨payload', hpayload, hrun⟩ := (calls_assertEquals issueMessage hkey.ne_nil hkey hform).runs
  have hexists : Record.get payload' (js "exists") = none := get_none_congr hpayload rfl
  have htype : optionalText payload' "type" = none :=
    optionalText_of_none (get_none_congr hpayload rfl)
  have hpath : textField payload' "path" = key := textField_congr hpayload "path"
  have hread := hpayload (js "equals")
  obtain ⟨expected, hexpected, hequal⟩ := Option.map_eq_some_iff.mp hread
  have hcanonical : canonicalKey current = canonicalKey expected :=
    canonicalKey_eq_iff.mpr (hsame.trans hequal.symm)
  rw [hrun]
  unfold assertHandler
  simp only [hexists, htype, hpath, hexpected, resolvePath_rootKey hkey, hcurrent]
  simp [Option.forM, bind, Except.bind, pure, Except.pure, Except.toOption, hcanonical]

/-- A form of an assertion that nothing is under a root key holds where nothing is. -/
theorem applyStep_assertAbsent_form (hkey : IsRootKey key)
    (hform : JsValue.Same form (assertAbsent key)) (hcurrent : Record.get map key = none) :
    applyStep issueMessage form (.obj map) = some (.obj map) := by
  obtain ⟨payload', hpayload, hrun⟩ := (calls_assertAbsent issueMessage hkey.ne_nil hkey hform).runs
  have hequals : Record.get payload' (js "equals") = none := get_none_congr hpayload rfl
  have htype : optionalText payload' "type" = none :=
    optionalText_of_none (get_none_congr hpayload rfl)
  have hpath : textField payload' "path" = key := textField_congr hpayload "path"
  have hread := hpayload (js "exists")
  obtain ⟨expected, hexpected, hflag⟩ := Option.map_eq_some_iff.mp hread
  obtain rfl : expected = .bool false := by
    cases expected <;> simp_all
  rw [hrun]
  unfold assertHandler
  simp only [hexpected, htype, hpath, hequals, resolvePath_rootKey hkey, hcurrent]
  simp [Option.forM, bind, Except.bind, pure, Except.pure, Except.toOption, JsValue.flag]

/-- A form of a write sets the value under a root key, in some form. -/
theorem applyStep_setValue_form (hkey : IsRootKey key)
    (hform : JsValue.Same form (setValue key value)) :
    ∃ written, JsValue.Same written value ∧
      applyStep issueMessage form (.obj map) = some (.obj (Record.setOwn map key written)) := by
  obtain ⟨payload', hpayload, hrun⟩ := (calls_setValue issueMessage hkey.ne_nil hkey hform).runs
  have hpath : textField payload' "path" = key := textField_congr hpayload "path"
  refine ⟨valueField payload' "value", hpayload.getD (js "value") .null, ?_⟩
  rw [hrun]
  unfold setHandler
  simp only [hpath, setAtPath_rootKey hkey]
  rfl

/-- A form of a removal removes what is under a root key. -/
theorem applyStep_unsetKey_form (hkey : IsRootKey key)
    (hform : JsValue.Same form (unsetKey key)) {current : JsValue}
    (hcurrent : Record.get map key = some current) :
    applyStep issueMessage form (.obj map) = some (.obj (Record.erase map key)) := by
  obtain ⟨payload', hpayload, hrun⟩ := (calls_unsetKey issueMessage hkey.ne_nil hkey hform).runs
  have hpath : textField payload' "path" = key := textField_congr hpayload "path"
  have hresolve : resolvePathSegments (.obj map) [.key key] = some current := by
    simp [resolvePathSegments, PathSegment.select, hcurrent]
  have hdelete : deleteAtPathSegments (.obj map) [.key key] =
      some (.obj (Record.erase map key)) := by
    unfold deleteAtPathSegments
    rw [if_neg (by simp [hresolve]), deepClone_eq]
    simp [deleteRecursive, PathSegment.select, PathSegment.remove, hcurrent]
  rw [hrun]
  unfold unsetHandler
  simp only [hpath, parsePath_of_tryParsePath hkey, List.getLast?_singleton, List.dropLast_singleton,
    resolvePathSegments_nil, hdelete, Option.getD_some]
  rfl

/-! ## One edit -/

/-- The operations that bring what is under a root key to something else: an assertion of what
is there, and a write or a removal. -/
def rootEdit (before after : Option JsValue) (key : JsString) : List JsValue :=
  [before.elim (assertAbsent key) (assertEquals key), after.elim (unsetKey key) (setValue key)]

/-- Two records read alike under a name. -/
def ReadsAlike (m m' : Record JsValue) (key : JsString) : Prop :=
  (Record.get m key).map (JsValue.denote JsNumber.dropZeroSign) =
    (Record.get m' key).map (JsValue.denote JsNumber.dropZeroSign)

/-- What a record reads alike with another that has a member there. -/
theorem ReadsAlike.exists_of_some {m m' : Record JsValue} (h : ReadsAlike m m' key)
    (hvalue : Record.get m' key = some value) :
    ∃ current, Record.get m key = some current ∧ JsValue.Same current value := by
  rw [ReadsAlike, hvalue] at h
  exact Option.map_eq_some_iff.mp h

/-- What a record reads alike with another that has no member there. -/
theorem ReadsAlike.none_of_none {m m' : Record JsValue} (h : ReadsAlike m m' key)
    (hnone : Record.get m' key = none) : Record.get m key = none := by
  rw [ReadsAlike, hnone] at h
  exact Option.map_eq_none_iff.mp h

/-- Forms of the edit of a root key bring a document that reads alike with the base there to one
that reads alike with the target there, and to no other one elsewhere. -/
theorem run_rootEdit {base target : Record JsValue} (hkey : IsRootKey key)
    (hsome : Record.has base key = true ∨ Record.has target key = true)
    (hforms : List.Forall₂ JsValue.Same forms
      (rootEdit (Record.get base key) (Record.get target key) key))
    (hread : ReadsAlike map base key) :
    ∃ map', run (applyStep issueMessage) (.obj map) forms = some (.obj map') ∧
      ReadsAlike map' target key ∧
      ∀ other, other ≠ key → Record.get map' other = Record.get map other := by
  obtain ⟨first, rest, hfirst, hrest, rfl⟩ := List.forall₂_cons_right_iff.mp hforms
  obtain ⟨second, rest', hsecond, hrest', rfl⟩ := List.forall₂_cons_right_iff.mp hrest
  obtain rfl := List.forall₂_nil_right_iff.mp hrest'
  have hassert : applyStep issueMessage first (.obj map) = some (.obj map) := by
    cases hbefore : Record.get base key with
    | none =>
      rw [hbefore] at hfirst
      exact applyStep_assertAbsent_form issueMessage hkey hfirst (hread.none_of_none hbefore)
    | some before =>
      rw [hbefore] at hfirst
      obtain ⟨current, hcurrent, hsame⟩ := hread.exists_of_some hbefore
      exact applyStep_assertEquals_form issueMessage hkey hfirst hcurrent hsame
  rw [run_cons, hassert, Option.bind_some, run_cons]
  cases hafter : Record.get target key with
  | some after =>
    rw [hafter] at hsecond
    obtain ⟨written, hwritten, hset⟩ := applyStep_setValue_form issueMessage hkey hsecond
    refine ⟨Record.setOwn map key written, by rw [hset]; rfl, ?_, fun other hother => ?_⟩
    · rw [ReadsAlike, Record.get_setOwn, if_pos rfl, hafter]
      exact congrArg some hwritten
    · rw [Record.get_setOwn, if_neg hother]
  | none =>
    rw [hafter] at hsecond
    obtain ⟨before, hbefore⟩ : ∃ before, Record.get base key = some before := by
      rcases hsome with hbase | htarget
      · exact Record.has_eq_true.mp hbase
      · exact absurd hafter (by obtain ⟨v, hv⟩ := Record.has_eq_true.mp htarget; simp [hv])
    obtain ⟨current, hcurrent, -⟩ := hread.exists_of_some hbefore
    have hunset := applyStep_unsetKey_form issueMessage hkey hsecond hcurrent
    refine ⟨Record.erase map key, by rw [hunset]; rfl, ?_, fun other hother => ?_⟩
    · rw [ReadsAlike, Record.get_erase, if_pos rfl, hafter]
    · rw [Record.get_erase, if_neg hother]

end

end T3x.Yops
