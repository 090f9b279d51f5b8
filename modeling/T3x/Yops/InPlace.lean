import T3x.Js.Agree
import T3x.Yops.Lens

/-!
# Changes in place

An operation that reads a mapping or a sequence at a path and writes back below
the path changes one part of the document in place. As long as the part still
matches the last segment, the path goes on naming the same part, so a sequence
of such writes composes into one change of the part.
-/

namespace T3x.Yops

open Js

variable {doc old new part value result : JsValue} {segments more : List PathSegment}
  {segment : PathSegment} {map : Record JsValue} {name text : JsString}

/-! ## One segment -/

namespace PathSegment

/-- Putting an item that still matches leaves the positions. -/
theorem position_set {items : List JsValue} {n : ℕ} (h : segment.position items = some n)
    (hmatch : ∀ name value, segment = .match name value → itemMatchesSeg name value new = true) :
    segment.position (items.set n new) = some n := by
  cases segment with
  | key name => cases h
  | index m =>
    simp only [position, List.length_set] at h ⊢
    exact h
  | «match» name value =>
    obtain ⟨hn, hold, hfirst⟩ := List.findIdx?_eq_some_iff_getElem.mp h
    refine List.findIdx?_eq_some_iff_getElem.mpr ⟨by simpa using hn, ?_, ?_⟩
    · simpa using hmatch name value rfl
    · intro j hj
      simpa [List.getElem_set_ne (by omega : n ≠ j)] using hfirst j hj

/-- A segment selects in an array at its position. -/
theorem select_arr_eq_some {items : List JsValue} (h : segment.select (.arr items) = some part) :
    ∃ n, segment.position items = some n ∧ n < items.length := by
  obtain ⟨n, hn, hpart⟩ := Option.bind_eq_some_iff.mp h
  exact ⟨n, hn, (List.getElem?_eq_some_iff.mp hpart).1⟩

/-- What is put where a segment selects is selected, as long as it matches. -/
theorem select_put_self (h : segment.select doc = some part)
    (hmatch : ∀ name value, segment = .match name value → itemMatchesSeg name value new = true) :
    segment.select (segment.put new doc) = some new := by
  cases doc with
  | obj map =>
    cases segment with
    | key name => exact (Record.get_setOwn map name new name).trans (if_pos rfl)
    | _ => cases h
  | arr items =>
    obtain ⟨n, hn, hlt⟩ := select_arr_eq_some h
    simp only [put, hn, Option.map_some, Option.getD_some, select, position_set hn hmatch]
    simp [hlt]
  | _ => cases h

/-- Of two parts put at one segment the second counts. -/
theorem put_put (h : segment.select doc = some part)
    (hmatch : ∀ name value, segment = .match name value → itemMatchesSeg name value new = true) :
    segment.put value (segment.put new doc) = segment.put value doc := by
  cases doc with
  | obj map =>
    cases segment with
    | key name => exact congrArg JsValue.obj (Record.setOwn_setOwn map name new value)
    | _ => rfl
  | arr items =>
    obtain ⟨n, hn, -⟩ := select_arr_eq_some h
    simp only [put, hn, Option.map_some, Option.getD_some, position_set hn hmatch,
      List.set_set]
  | _ => rfl

/-- A segment keeps its place. -/
theorem place_put (h : segment.select doc = some part)
    (hmatch : ∀ name value, segment = .match name value → itemMatchesSeg name value new = true) :
    segment.place (segment.put new doc) = segment.place doc := by
  cases segment with
  | key name => rfl
  | index n => rfl
  | «match» name value =>
    cases doc with
    | arr items =>
      obtain ⟨n, hn, -⟩ := select_arr_eq_some h
      have hset := position_set hn hmatch
      have hput : put (.match name value) new (.arr items) = .arr (items.set n new) := by
        simp only [put, hn, Option.map_some, Option.getD_some]
      simp only [position] at hn hset
      simp only [hput, place, hn, hset]
    | _ => cases h

end PathSegment

/-- What matches a text by its member of a name is a mapping with a scalar under the name. -/
theorem itemMatchesSeg_eq_true (h : itemMatchesSeg name text value = true) :
    ∃ map member, value = .obj map ∧ Record.get map name = some member ∧
      isObject member = false := by
  cases value with
  | obj map =>
    obtain ⟨member, hmember, hequals⟩ := (Option.any_eq_true _ _).mp h
    refine ⟨map, member, rfl, hmember, ?_⟩
    cases member with
    | arr _ => cases hequals
    | obj _ => cases hequals
    | _ => rfl
  | _ => cases h

/-- What a match segment selects matches. -/
theorem itemMatchesSeg_of_select (h : (PathSegment.match name text).select doc = some part) :
    itemMatchesSeg name text part = true := by
  cases doc with
  | arr items =>
    obtain ⟨n, hn, hitem⟩ := Option.bind_eq_some_iff.mp h
    obtain ⟨hlt, hmatches, -⟩ := List.findIdx?_eq_some_iff_getElem.mp hn
    obtain ⟨-, rfl⟩ := List.getElem?_eq_some_iff.mp hitem
    exact hmatches
  | _ => cases h

/-- Nothing is below a scalar. -/
theorem resolvePathSegments_scalar (h : isObject doc = false)
    (hvalue : resolvePathSegments doc segments = some value) : value = doc := by
  cases segments with
  | nil => exact (Option.some.inj hvalue).symm
  | cons segment rest =>
    rw [resolvePathSegments_cons] at hvalue
    cases doc with
    | arr _ => cases h
    | obj _ => cases h
    | _ => cases hvalue

/-! ## The part at a path -/

/-- The document with another part where the path resolves. -/
def replaceAt (new : JsValue) (segments : List PathSegment) (doc : JsValue) : JsValue :=
  updateAtPathSegments (fun _ => new) segments doc

/-- A part that may stand where another one is: both are mappings or sequences, and the last
segment of the path still matches. -/
structure FitsAt (segments : List PathSegment) (old new : JsValue) : Prop where
  /-- The part that was there is a mapping or a sequence. -/
  isObject_old : isObject old = true
  /-- The last segment still matches. -/
  matches_last : ∀ name value, segments.getLast? = some (.match name value) →
    itemMatchesSeg name value new = true

/-- Replacing behind a segment. -/
theorem replaceAt_cons (h : segment.select doc = some part) :
    replaceAt new (segment :: segments) doc =
      segment.put (replaceAt new segments part) doc := by
  rw [replaceAt, updateAtPathSegments, h]
  rfl

/-- Nothing but the last segment tests what the part that fits is. -/
theorem FitsAt.tail (h : FitsAt (segment :: segments) old new) : FitsAt segments old new := by
  refine ⟨h.isObject_old, fun name value hlast => h.matches_last name value ?_⟩
  cases segments with
  | nil => cases hlast
  | cons next rest => rwa [List.getLast?_cons_cons]

/-- An item goes on matching when a part below it is replaced. -/
theorem itemMatchesSeg_replaceAt (h : resolvePathSegments doc (segment :: segments) = some old)
    (hobject : isObject old = true) (hmatch : itemMatchesSeg name text doc = true) :
    itemMatchesSeg name text (replaceAt new (segment :: segments) doc) = true := by
  obtain ⟨map, member, rfl, hmember, hscalar⟩ := itemMatchesSeg_eq_true hmatch
  rw [resolvePathSegments_cons] at h
  obtain ⟨part, hpart, hold⟩ := Option.bind_eq_some_iff.mp h
  rw [replaceAt_cons hpart]
  cases segment with
  | key other =>
    have hne : name ≠ other := by
      rintro rfl
      obtain rfl := Option.some.inj (hmember.symm.trans hpart)
      rw [resolvePathSegments_scalar hscalar hold, hscalar] at hobject
      cases hobject
    simp only [itemMatchesSeg, PathSegment.put, Record.get_setOwn, if_neg hne] at hmatch ⊢
    exact hmatch
  | _ => cases hpart

/-- A segment that selects goes on matching when the part at the path is replaced by one that
fits. -/
theorem FitsAt.matches_cons (h : FitsAt (segment :: segments) old new)
    (hpart : segment.select doc = some part) (hold : resolvePathSegments part segments = some old)
    (name text : JsString) (hsegment : segment = .match name text) :
    itemMatchesSeg name text (replaceAt new segments part) = true := by
  subst hsegment
  cases segments with
  | nil => exact h.matches_last name text rfl
  | cons next rest =>
    exact itemMatchesSeg_replaceAt hold h.isObject_old (itemMatchesSeg_of_select hpart)

/-- The path resolves to the part that replaced the old one. -/
theorem resolvePathSegments_replaceAt (h : resolvePathSegments doc segments = some old)
    (hfits : FitsAt segments old new) :
    resolvePathSegments (replaceAt new segments doc) segments = some new := by
  induction segments generalizing doc with
  | nil => rfl
  | cons segment rest ih =>
    rw [resolvePathSegments_cons] at h
    obtain ⟨part, hpart, hold⟩ := Option.bind_eq_some_iff.mp h
    rw [replaceAt_cons hpart, resolvePathSegments_cons,
      PathSegment.select_put_self hpart (hfits.matches_cons hpart hold), Option.bind_some]
    exact ih hold hfits.tail

/-- Of two parts that replace the one at a path the second counts. -/
theorem replaceAt_replaceAt (h : resolvePathSegments doc segments = some old)
    (hfits : FitsAt segments old new) :
    replaceAt value segments (replaceAt new segments doc) = replaceAt value segments doc := by
  induction segments generalizing doc with
  | nil => rfl
  | cons segment rest ih =>
    rw [resolvePathSegments_cons] at h
    obtain ⟨part, hpart, hold⟩ := Option.bind_eq_some_iff.mp h
    have hmatch := hfits.matches_cons hpart hold
    rw [replaceAt_cons hpart, replaceAt_cons hpart,
      replaceAt_cons (PathSegment.select_put_self hpart hmatch), PathSegment.put_put hpart hmatch,
      ih hold hfits.tail]

/-- The path goes on standing for the same location. -/
theorem locate_replaceAt (h : resolvePathSegments doc segments = some old)
    (hfits : FitsAt segments old new) :
    locate segments (replaceAt new segments doc) = locate segments doc := by
  induction segments generalizing doc with
  | nil => rfl
  | cons segment rest ih =>
    rw [resolvePathSegments_cons] at h
    obtain ⟨part, hpart, hold⟩ := Option.bind_eq_some_iff.mp h
    have hmatch := hfits.matches_cons hpart hold
    rw [replaceAt_cons hpart, locate, locate, PathSegment.place_put hpart hmatch,
      PathSegment.inside, PathSegment.inside, PathSegment.select_put_self hpart hmatch, hpart,
      Option.getD_some, Option.getD_some, ih hold hfits.tail]

/-! ## Parts that are the same -/

/-- Objects that read alike are the same. -/
theorem same_obj_of_get {map map' : Record JsValue}
    (h : ∀ key, Record.get map key = Record.get map' key) :
    JsValue.Same (.obj map) (.obj map') :=
  JsValue.denote_obj_eq_iff.mpr fun key => by rw [h]

/-- The same parts put at a segment give the same values. -/
theorem PathSegment.put_same (h : JsValue.Same old new) :
    JsValue.Same (segment.put old doc) (segment.put new doc) := by
  cases doc with
  | obj map =>
    cases segment with
    | key name =>
      refine JsValue.denote_obj_eq_iff.mpr fun key => ?_
      rw [Record.get_setOwn, Record.get_setOwn]
      split_ifs
      · exact congrArg some h
      · rfl
    | _ => exact JsValue.Same.refl _
  | arr items =>
    simp only [put, JsValue.Same, JsValue.denote_arr]
    cases segment.position items with
    | none => rfl
    | some n =>
      rw [Option.map_some, Option.map_some, Option.getD_some, Option.getD_some, List.map_set,
        List.map_set, show old.denote _ = new.denote _ from h]
  | _ => exact JsValue.Same.refl _

/-- What a segment selects, put there again, leaves the same value. -/
theorem PathSegment.put_select (h : segment.select doc = some part) :
    JsValue.Same (segment.put part doc) doc := by
  cases doc with
  | obj map =>
    cases segment with
    | key name =>
      refine same_obj_of_get fun key => ?_
      rw [Record.get_setOwn]
      split_ifs with hkey
      · rw [hkey, show Record.get map name = some part from h]
      · rfl
    | _ => cases h
  | arr items =>
    obtain ⟨n, hn, hitem⟩ := Option.bind_eq_some_iff.mp h
    obtain ⟨hlt, rfl⟩ := List.getElem?_eq_some_iff.mp hitem
    simp only [put, hn, Option.map_some, Option.getD_some, List.set_getElem_self]
    exact JsValue.Same.refl _
  | _ => cases h

/-- Replacing by the same parts gives the same documents. -/
theorem replaceAt_same (h : JsValue.Same old new) (segments : List PathSegment) (doc : JsValue) :
    JsValue.Same (replaceAt old segments doc) (replaceAt new segments doc) := by
  induction segments generalizing doc with
  | nil => exact h
  | cons segment rest ih =>
    cases hpart : segment.select doc with
    | none =>
      simp only [replaceAt, updateAtPathSegments, hpart]
      exact JsValue.Same.refl _
    | some part =>
      rw [replaceAt_cons hpart, replaceAt_cons hpart]
      exact PathSegment.put_same (ih part)

/-- Replacing a part by itself leaves the same document. -/
theorem replaceAt_self (h : resolvePathSegments doc segments = some old) :
    JsValue.Same (replaceAt old segments doc) doc := by
  induction segments generalizing doc with
  | nil =>
    obtain rfl := Option.some.inj h
    exact JsValue.Same.refl _
  | cons segment rest ih =>
    rw [resolvePathSegments_cons] at h
    obtain ⟨part, hpart, hold⟩ := Option.bind_eq_some_iff.mp h
    rw [replaceAt_cons hpart]
    exact (PathSegment.put_same (ih hold)).trans (PathSegment.put_select hpart)

/-- Parts that give the same values at a segment are the same. -/
theorem PathSegment.same_of_put (h : segment.select doc = some part)
    (hsame : JsValue.Same (segment.put old doc) (segment.put new doc)) : JsValue.Same old new := by
  cases doc with
  | obj map =>
    cases segment with
    | key name =>
      have hname := JsValue.denote_obj_eq_iff.mp hsame name
      rw [Record.get_setOwn, Record.get_setOwn, if_pos rfl, if_pos rfl] at hname
      exact Option.some.inj hname
    | _ => cases h
  | arr items =>
    obtain ⟨n, hn, hlt⟩ := select_arr_eq_some h
    simp only [put, hn, Option.map_some, Option.getD_some, JsValue.Same, JsValue.denote_arr,
      List.map_set] at hsame
    have hitem := congrArg (·[n]?) (Doc.arr.inj hsame)
    simp only [List.getElem?_set_self, List.length_map, hlt] at hitem
    exact Option.some.inj hitem
  | _ => cases h

/-- Parts that give the same documents where a path resolves are the same. -/
theorem same_of_replaceAt (h : resolvePathSegments doc segments = some part)
    (hsame : JsValue.Same (replaceAt old segments doc) (replaceAt new segments doc)) :
    JsValue.Same old new := by
  induction segments generalizing doc with
  | nil => exact hsame
  | cons segment rest ih =>
    rw [resolvePathSegments_cons] at h
    obtain ⟨inner, hinner, hpart⟩ := Option.bind_eq_some_iff.mp h
    rw [replaceAt_cons hinner, replaceAt_cons hinner] at hsame
    exact ih hpart (PathSegment.same_of_put hinner hsame)

/-! ## Edits below a path -/

/-- A longer path resolves in the part that the shorter one resolves to. -/
theorem resolvePathSegments_append (doc : JsValue) (segments more : List PathSegment) :
    resolvePathSegments doc (segments ++ more) =
      (resolvePathSegments doc segments).bind fun part => resolvePathSegments part more :=
  List.foldlM_append

/-- What a path with a match at its end resolves to matches. -/
theorem itemMatchesSeg_of_resolve (h : resolvePathSegments doc segments = some old)
    (hlast : segments.getLast? = some (.match name text)) :
    itemMatchesSeg name text old = true := by
  obtain ⟨init, rfl⟩ := List.getLast?_eq_some_iff.mp hlast
  rw [resolvePathSegments_append] at h
  obtain ⟨part, -, hold⟩ := Option.bind_eq_some_iff.mp h
  rw [resolvePathSegments_cons] at hold
  obtain ⟨item, hitem, hnil⟩ := Option.bind_eq_some_iff.mp hold
  obtain rfl := Option.some.inj hnil
  exact itemMatchesSeg_of_select hitem

/-- Any part fits where a sequence is. -/
theorem fitsAt_arr {items : List JsValue}
    (h : resolvePathSegments doc segments = some (.arr items)) :
    FitsAt segments (.arr items) new := by
  refine ⟨rfl, fun name text hlast => ?_⟩
  have hmatches := itemMatchesSeg_of_resolve h hlast
  cases hmatches

/-- Setting below a path that resolves sets in the part there. -/
theorem setRecursive_append_eq_ok_iff (h : resolvePathSegments doc segments = some old)
    (hold : isObject old = true) : setRecursive value (segments ++ more) doc = .ok result ↔
      ∃ new, setRecursive value more old = .ok new ∧ result = replaceAt new segments doc := by
  induction segments generalizing doc result with
  | nil =>
    obtain rfl := Option.some.inj h
    exact ⟨fun hset => ⟨result, hset, rfl⟩, fun ⟨new, hset, hresult⟩ => hresult ▸ hset⟩
  | cons segment rest ih =>
    rw [resolvePathSegments_cons] at h
    obtain ⟨part, hpart, hrest⟩ := Option.bind_eq_some_iff.mp h
    have hinside : segment.inside doc = part := by rw [PathSegment.inside, hpart, Option.getD_some]
    have hentered : segment.enter doc = .ok part := by
      have hobject : isObject part = true := by
        by_contra hscalar
        have hfalse := Bool.eq_false_iff.mpr hscalar
        rw [resolvePathSegments_scalar hfalse hrest] at hold
        exact hscalar hold
      unfold PathSegment.enter
      rw [hpart]
      cases segment with
      | key name => exact if_pos hobject
      | _ => rfl
    rw [List.cons_append, setRecursive_cons_eq_ok_iff, hinside]
    constructor
    · rintro ⟨-, -, inner, hinner, rfl⟩
      obtain ⟨new, hnew, rfl⟩ := (ih hrest).mp hinner
      exact ⟨new, hnew, (replaceAt_cons hpart).symm⟩
    · rintro ⟨new, hnew, rfl⟩
      exact ⟨PathSegment.refusal_of_select hpart, .inr hentered, _,
        (ih hrest).mpr ⟨new, hnew, rfl⟩, replaceAt_cons hpart⟩

/-- Setting a mapping or a sequence where there is one replaces it. -/
theorem setRecursive_eq_replaceAt (h : resolvePathSegments doc segments = some old)
    (hold : isObject old = true) :
    setRecursive value segments doc = .ok (replaceAt value segments doc) := by
  have hset : setRecursive value (segments ++ []) doc = .ok (replaceAt value segments doc) :=
    (setRecursive_append_eq_ok_iff h hold).mpr ⟨value, rfl, rfl⟩
  rwa [List.append_nil] at hset

/-- Deleting below a path that resolves deletes in the part there. -/
theorem deleteRecursive_append_eq_some_iff (h : resolvePathSegments doc segments = some old)
    (hmore : more ≠ []) : deleteRecursive (segments ++ more) doc = some result ↔
      ∃ new, deleteRecursive more old = some new ∧ result = replaceAt new segments doc := by
  induction segments generalizing doc result with
  | nil =>
    obtain rfl := Option.some.inj h
    exact ⟨fun hdelete => ⟨result, hdelete, rfl⟩, fun ⟨new, hdelete, hresult⟩ => hresult ▸ hdelete⟩
  | cons segment rest ih =>
    rw [resolvePathSegments_cons] at h
    obtain ⟨part, hpart, hrest⟩ := Option.bind_eq_some_iff.mp h
    have hne : rest ++ more ≠ [] := fun hnil => hmore (List.append_eq_nil_iff.mp hnil).2
    rw [List.cons_append, deleteRecursive_cons_eq_some_iff hne]
    constructor
    · rintro ⟨part', inner, hpart', hinner, rfl⟩
      obtain rfl := Option.some.inj (hpart.symm.trans hpart')
      obtain ⟨new, hnew, rfl⟩ := (ih hrest).mp hinner
      exact ⟨new, hnew, (replaceAt_cons hpart).symm⟩
    · rintro ⟨new, hnew, rfl⟩
      exact ⟨part, _, hpart, (ih hrest).mpr ⟨new, hnew, rfl⟩, replaceAt_cons hpart⟩

/-- The rest of the document stays as it is when a mapping or a sequence is replaced. -/
theorem isSetAt_replaceAt (h : resolvePathSegments doc segments = some old)
    (hold : isObject old = true) :
    IsSetAt doc (locate segments doc) new (replaceAt new segments doc) := by
  have hset : setRecursive new segments doc = .ok (replaceAt new segments doc) :=
    setRecursive_eq_replaceAt h hold
  obtain ⟨hlocation, hset'⟩ := setRecursive_locate hset
  exact isSetAt_of_setRecursive hlocation hset'

end T3x.Yops
