import T3x.Yops.Engine
import T3x.Yops.Lens

/-!
# Moving

A move sets the value at its destination and then deletes its source. Where the
destination lies below the source, the deletion takes the moved value with it.
The handler refuses such a destination by the texts of the two paths, so it does
not see one whose text spells a segment in another way.
-/

namespace T3x.Yops

open Js

variable {doc value result : JsValue} {segments loc other source destination : List PathSegment}

/-! ## Locations -/

/-- A location stands for itself. -/
theorem locate_eq_self (h : IsLocation loc) (doc : JsValue) : locate loc doc = loc := by
  induction loc generalizing doc with
  | nil => rfl
  | cons p rest ih =>
    obtain ⟨hp, hrest⟩ := List.forall_mem_cons.mp h
    have hplace : p.place doc = p := by cases p <;> first | rfl | cases hp
    rw [locate, hplace, ih hrest]

/-- A path of keys is a location. -/
theorem isLocation_keys (keys : List JsString) : IsLocation (keys.map .key) := by
  intro segment hmem
  obtain ⟨key, -, rfl⟩ := List.mem_map.mp hmem
  rfl

/-- A location neither on the way to another one nor below it. -/
def Apart (loc other : List PathSegment) : Prop := ¬ loc <+: other ∧ ¬ other <+: loc

/-- What is apart from a deleted key stays where it is. -/
theorem before_of_apart (h : Apart loc other) (hkey : ∃ init name, loc = init ++ [.key name]) :
    before loc other = some other := by
  obtain ⟨init, name, rfl⟩ := hkey
  induction init generalizing other with
  | nil =>
    cases other with
    | nil => exact absurd List.nil_prefix h.2
    | cons q others =>
      have hne : q ≠ .key name := by
        rintro rfl
        exact h.1 ⟨others, rfl⟩
      rw [List.nil_append, before, PathSegment.before, if_neg hne, Option.map_some]
  | cons p init ih =>
    cases other with
    | nil => exact absurd List.nil_prefix h.2
    | cons q others =>
      have hbefore : before (p :: (init ++ [.key name])) (q :: others) =
          if q = p then (before (init ++ [.key name]) others).map (q :: ·)
          else some (q :: others) := by
        cases init <;> rfl
      rw [List.cons_append, hbefore]
      by_cases heq : q = p
      · subst heq
        have hapart : Apart (init ++ [.key name]) others := by
          refine ⟨fun hprefix => h.1 ?_, fun hprefix => h.2 ?_⟩
          · exact List.cons_prefix_cons.mpr ⟨rfl, hprefix⟩
          · exact List.cons_prefix_cons.mpr ⟨rfl, hprefix⟩
        rw [if_pos rfl, ih hapart, Option.map_some]
      · rw [if_neg heq]

/-- Nothing is at a deleted key or below it. -/
theorem before_of_prefix (h : loc <+: other) (hkey : ∃ init name, loc = init ++ [.key name]) :
    before loc other = none := by
  obtain ⟨init, name, rfl⟩ := hkey
  obtain ⟨below, rfl⟩ := h
  induction init with
  | nil =>
    rw [List.nil_append, List.singleton_append, before, PathSegment.before, if_pos rfl,
      Option.map_none]
  | cons p init ih =>
    have hbefore : before (p :: (init ++ [.key name])) (p :: (init ++ [.key name] ++ below)) =
        (before (init ++ [.key name]) (init ++ [.key name] ++ below)).map (p :: ·) := by
      cases init <;> exact if_pos rfl
    rw [List.cons_append, List.cons_append, hbefore, ih, Option.map_none]

/-- What is above something is something. -/
theorem resolvePathSegments_of_prefix (h : loc <+: other)
    (hvalue : resolvePathSegments doc other = some value) :
    ∃ above, resolvePathSegments doc loc = some above := by
  obtain ⟨below, rfl⟩ := h
  rw [resolvePathSegments, List.foldlM_append] at hvalue
  obtain ⟨above, habove, -⟩ := Option.bind_eq_some_iff.mp hvalue
  exact ⟨above, habove⟩

/-! ## The move -/

/-- What a move leaves: the value has arrived and left, and the rest of the document is as it
was. -/
structure Moved (doc result : JsValue) (source destination : List PathSegment) : Prop where
  /-- The value has arrived. -/
  arrived : resolvePathSegments result destination = resolvePathSegments doc source
  /-- The value has left. -/
  left : resolvePathSegments result source = none
  /-- What is apart from both paths is as it was. -/
  frame : ∀ other, IsLocation other → Apart source other → Apart destination other →
    resolvePathSegments result other = resolvePathSegments doc other

/-- A value set at a free destination and deleted at its source, which was there, has moved
exactly if the destination is not below the source. -/
theorem moved_iff (hsource : IsLocation source) (hdestination : IsLocation destination)
    (hkey : ∃ init name, source = init ++ [.key name]) {sourceValue between : JsValue}
    (hthere : resolvePathSegments doc source = some sourceValue)
    (hfree : resolvePathSegments doc destination = none)
    (hset : setRecursive sourceValue destination doc = .ok between)
    (hdelete : deleteRecursive source between = some result) :
    Moved doc result source destination ↔ ¬ source <+: destination := by
  obtain ⟨hholds, hframe, -⟩ := isSetAt_of_setRecursive hdestination hset
  obtain ⟨-, hmoved⟩ := isDeletedAt_of_deleteRecursive hsource hdelete
  have habove : ¬ destination <+: source := by
    intro hprefix
    obtain ⟨above, habove⟩ := resolvePathSegments_of_prefix hprefix hthere
    rw [hfree] at habove
    cases habove
  have hleft : resolvePathSegments result source = none := by
    rw [hmoved source hsource fun _ => rfl, before_of_prefix List.prefix_rfl hkey]
    rfl
  have hat : resolvePathSegments result destination =
      (before source destination).bind (resolvePathSegments between) :=
    hmoved destination hdestination fun hprefix => absurd hprefix habove
  constructor
  · intro hresult hprefix
    have harrived := hresult.arrived
    rw [hat, before_of_prefix hprefix hkey, hthere] at harrived
    cases harrived
  · intro hnot
    refine ⟨?_, hleft, fun other hother hapart hapart' => ?_⟩
    · rw [hat, before_of_apart ⟨hnot, habove⟩ hkey, Option.bind_some, hholds, hthere]
    · rw [hmoved other hother fun hprefix => absurd hprefix hapart.2,
        before_of_apart hapart hkey, Option.bind_some, hframe other hother hapart'.1 hapart'.2]

/-- What a move that succeeds did: it set the source's value at a free destination, and deleted
the source. -/
theorem moveHandler_eq_ok {fields : Record JsValue} {index : ℕ}
    (h : moveHandler doc fields index = .ok result) :
    ∃ sourceValue between, resolvePath doc (textField fields "from") = some sourceValue ∧
      resolvePath doc (textField fields "to") = none ∧
      setAtPath doc (textField fields "to") sourceValue = .ok between ∧
      deleteAtPath between (textField fields "from") = some result := by
  unfold moveHandler at h
  simp only [deepClone_eq] at h
  by_cases hsame : textField fields "to" = textField fields "from"
  · rw [if_pos hsame] at h
    cases h
  rw [if_neg hsame] at h
  by_cases hbelow : (textField fields "from" ++ [unit '/']).isPrefixOf (textField fields "to")
  · rw [if_pos hbelow] at h
    cases h
  rw [if_neg hbelow] at h
  obtain ⟨sourceValue, hsource, h⟩ := bind_eq_ok_iff.mp h
  by_cases hthere : (resolvePath doc (textField fields "to")).isSome
  · rw [if_pos hthere] at h
    cases h
  rw [if_neg hthere] at h
  obtain ⟨between, hset, h⟩ := bind_eq_ok_iff.mp h
  refine ⟨sourceValue, between, valueAt_eq_ok_iff.mp hsource, by simpa using hthere,
    throwing_eq_ok_iff.mp hset, ?_⟩
  cases hdelete : deleteAtPath between (textField fields "from") with
  | some result' =>
    simp only [hdelete] at h
    exact congrArg some (Except.ok.inj h)
  | none =>
    simp only [hdelete] at h
    cases h

/-- The strict parser gives the segments that the handlers work with. -/
theorem parsePath_of_tryParsePath {path : JsString} (h : tryParsePath path = .ok segments) :
    parsePath path = segments := by
  rw [parsePath, h]

/-- A move between paths of keys that is applied has moved the value exactly if the keys of its
source are no prefix of the keys of its destination. -/
theorem move_moves_iff (issueMessage : JsValue → JsString) {op fields : Record JsValue}
    {doc result : JsValue} {index : ℕ} {fromKeys toKeys : List JsString}
    (hcall : IsCall op "move" fields)
    (hfrom : tryParsePath (textField fields "from") = .ok (fromKeys.map .key))
    (hto : tryParsePath (textField fields "to") = .ok (toKeys.map .key))
    (happly : (applyOp issueMessage (.obj op) doc index).1 = .ok result) :
    Moved doc result (fromKeys.map .key) (toKeys.map .key) ↔ ¬ fromKeys <+: toKeys := by
  obtain ⟨handler, hhandler, hresult⟩ := handler_of_applyOp issueMessage hcall happly
  obtain rfl := Option.some.inj hhandler
  obtain ⟨sourceValue, between, hsource, hfree, hset, hdelete⟩ := moveHandler_eq_ok hresult
  rw [resolvePath, parsePath_of_tryParsePath hfrom] at hsource
  rw [resolvePath, parsePath_of_tryParsePath hto] at hfree
  rw [setAtPath, parsePath_of_tryParsePath hto, setAtPathSegments, deepClone_eq,
    deepClone_eq] at hset
  rw [deleteAtPath, parsePath_of_tryParsePath hfrom] at hdelete
  obtain ⟨hne, -, hdelete⟩ := deleteAtPathSegments_eq_some_iff.mp hdelete
  have hkey : ∃ init name, fromKeys.map PathSegment.key = init ++ [.key name] := by
    rcases List.eq_nil_or_concat' fromKeys with rfl | ⟨init, last, rfl⟩
    · exact absurd rfl hne
    · exact ⟨init.map .key, last, by simp⟩
  rw [moved_iff (isLocation_keys _) (isLocation_keys _) hkey hsource hfree hset hdelete]
  have hinjective : Function.Injective PathSegment.key := fun a b h => PathSegment.key.inj h
  rw [List.prefix_map_iff_of_injective hinjective]

/-- Moving `a` to `b/c`. -/
theorem move_moves_iff_apart :
    Moved (.obj [(js "a", .null)]) (.obj [(js "b", .obj [(js "c", .null)])])
      ([js "a"].map .key) ([js "b", js "c"].map .key) ↔ ¬ [js "a"] <+: [js "b", js "c"] :=
  @move_moves_iff (fun _ => js "Invalid input")
    [(js "move", .obj [(js "from", .str (js "a")), (js "to", .str (js "b/c"))])]
    [(js "from", .str (js "a")), (js "to", .str (js "b/c"))] _ _ 0 _ _
    ⟨by decide, by decide⟩ (by decide) (by decide) (by decide)

/-- Moving `a` to `"a"/b` deletes the value. -/
theorem move_loses_value :
    (applyYOps (fun _ => js "Invalid input") (.obj [(js "a", .obj [])])
      [.obj [(js "move", .obj [(js "from", .str (js "a")), (js "to", .str (js "\"a\"/b"))])]]).doc
        = .obj [] ∧
    (applyYOps (fun _ => js "Invalid input") (.obj [(js "a", .obj [])])
      [.obj [(js "move", .obj [(js "from", .str (js "a")),
        (js "to", .str (js "\"a\"/b"))])]]).ok = true ∧
    resolvePath (.obj []) (js "\"a\"/b") ≠ resolvePath (.obj [(js "a", .obj [])]) (js "a") := by
  decide

end T3x.Yops
