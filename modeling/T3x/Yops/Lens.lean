import T3x.Yops.Document

/-!
# Editing at a location

A location is a path of keys and indexes. In a given document a path with match
segments stands for one location: each match gives way to the index of the first
item that matches. Reading, setting and deleting at the path are reading, setting
and deleting at this location, and leave every other location as it is.
-/

namespace T3x.Yops

open Js

/-! ## One segment -/

namespace PathSegment

/-- Whether a segment names a place whatever stands there: a key or an index. -/
def isPlace : PathSegment → Bool
  | .match _ _ => false
  | _ => true

/-- The place that a segment selects in a value: the index of the first matching item, where
one matches. -/
def place (segment : PathSegment) (current : JsValue) : PathSegment :=
  match segment, current with
  | .match name value, .arr items =>
    match items.findIdx? (itemMatchesSeg name value) with
    | some n => .index n
    | none => segment
  | _, _ => segment

/-- What a path goes on in behind a segment: a new mapping where nothing is. -/
def inside (segment : PathSegment) (current : JsValue) : JsValue :=
  (segment.select current).getD (.obj [])

variable {p q segment : PathSegment} {current part inner : JsValue}

/-- The place of a segment has its position. -/
theorem position_place (segment : PathSegment) (items : List JsValue) :
    (segment.place (.arr items)).position items = segment.position items := by
  cases segment with
  | key name => rfl
  | index n => rfl
  | «match» name value =>
    simp only [place]
    cases hfind : items.findIdx? (itemMatchesSeg name value) with
    | none => rfl
    | some n =>
      obtain ⟨hn, -⟩ := List.findIdx?_eq_some_iff_getElem.mp hfind
      simp only [position, if_pos hn, hfind]

/-- The place of a segment selects what the segment does. -/
theorem select_place (segment : PathSegment) (current : JsValue) :
    (segment.place current).select current = segment.select current := by
  cases current with
  | arr items => rw [select, select, position_place]
  | obj map => cases segment <;> rfl
  | _ => rfl

/-- Putting a part at the place of a segment. -/
theorem put_place (segment : PathSegment) (part current : JsValue) :
    (segment.place current).put part current = segment.put part current := by
  cases current with
  | arr items => rw [put, put, position_place]
  | obj map => cases segment <;> rfl
  | _ => rfl

/-- Removing what is at the place of a segment. -/
theorem remove_place (segment : PathSegment) (current : JsValue) :
    (segment.place current).remove current = segment.remove current := by
  cases current with
  | arr items => rw [remove, remove, position_place]
  | obj map => cases segment <;> rfl
  | _ => rfl

/-- Where something can be set at a segment, it can be set at its place. -/
theorem refusal_place (h : segment.refusal current = none) :
    (segment.place current).isPlace = true ∧ (segment.place current).refusal current = none := by
  cases segment with
  | key name => exact ⟨rfl, h⟩
  | index n => exact ⟨rfl, h⟩
  | «match» name value =>
    cases current with
    | arr items =>
      simp only [refusal] at h
      split_ifs at h with hany
      cases hfind : items.findIdx? (itemMatchesSeg name value) with
      | none =>
        rw [List.findIdx?_eq_none_iff] at hfind
        obtain ⟨item, hitem, hmatches⟩ := List.any_eq_true.mp hany
        rw [hfind item hitem] at hmatches
        cases hmatches
      | some n =>
        obtain ⟨hn, -⟩ := List.findIdx?_eq_some_iff_getElem.mp hfind
        refine ⟨?_, ?_⟩
        · simp only [place, hfind, isPlace]
        · simp only [place, hfind, refusal, if_pos hn]
    | _ => cases h

/-- Where a segment selects something, something can be set. -/
theorem refusal_of_select (h : segment.select current = some part) :
    segment.refusal current = none := by
  cases current with
  | obj map => cases segment <;> first | rfl | cases h
  | arr items =>
    obtain ⟨n, hposition, -⟩ := Option.bind_eq_some_iff.mp h
    cases segment with
    | key name => cases hposition
    | index m =>
      simp only [position] at hposition
      split_ifs at hposition with hm
      simp only [refusal, if_pos hm]
    | «match» name value =>
      obtain ⟨hn, hmatches, -⟩ := List.findIdx?_eq_some_iff_getElem.mp hposition
      have hany : items.any (itemMatchesSeg name value) = true :=
        List.any_eq_true.mpr ⟨items[n], List.getElem_mem hn, hmatches⟩
      simp only [refusal, if_pos hany]
  | _ => cases h

/-- What is entered at a segment is what the path goes on in. -/
theorem enter_eq_ok (h : segment.enter current = .ok inner) : inner = segment.inside current := by
  unfold enter at h
  unfold inside
  cases hselect : segment.select current with
  | none =>
    rw [hselect] at h
    cases segment <;> exact (Except.ok.inj h).symm
  | some part =>
    rw [hselect] at h
    cases segment with
    | key name =>
      simp only at h
      split_ifs at h
      exact (Except.ok.inj h).symm
    | _ => exact (Except.ok.inj h).symm

/-- The place of a segment is entered as the segment is. -/
theorem enter_place (segment : PathSegment) (current : JsValue) :
    (segment.place current).enter current = segment.enter current := by
  have hselect := select_place segment current
  cases segment with
  | key name => rfl
  | index n => rfl
  | «match» name value =>
    cases current with
    | arr items =>
      simp only [place] at hselect ⊢
      cases hfind : items.findIdx? (itemMatchesSeg name value) with
      | none => rfl
      | some n =>
        rw [hfind] at hselect
        simp only [enter, hselect]
        cases («match» name value).select (.arr items) <;> rfl
    | _ => rfl

/-- What is put at a place is there. -/
theorem select_put (hp : p.isPlace = true) (h : p.refusal current = none) :
    p.select (p.put part current) = some part := by
  cases p with
  | key name =>
    cases current with
    | obj map => simp [select, put]
    | _ => cases h
  | index n =>
    cases current with
    | arr items =>
      simp only [refusal] at h
      split_ifs at h with hn
      simp [select, put, position, hn]
    | _ => cases h
  | «match» name value => cases hp

/-- What is put at a place leaves every other place. -/
theorem select_put_of_ne (hp : p.isPlace = true) (hq : q.isPlace = true) (hne : q ≠ p) :
    q.select (p.put part current) = q.select current := by
  cases current with
  | obj map =>
    cases p with
    | key name =>
      cases q with
      | key other =>
        have hother : other ≠ name := fun heq => hne (heq ▸ rfl)
        simp [select, put, hother]
      | _ => rfl
    | _ => rfl
  | arr items =>
    cases p with
    | key name => rfl
    | «match» name value => cases hp
    | index n =>
      cases q with
      | key other => rfl
      | «match» name value => cases hq
      | index m =>
        have hother : n ≠ m := fun heq => hne (heq ▸ rfl)
        by_cases hn : n < items.length
        · by_cases hm : m < items.length
          · simp [select, put, position, hn, hm, List.getElem_set_ne hother]
          · simp [select, put, position, hn, hm]
        · simp [select, put, position, hn]
  | _ => rfl

end PathSegment

/-! ## Locations -/

/-- Every segment names a place. -/
def IsLocation (loc : List PathSegment) : Prop := ∀ segment ∈ loc, segment.isPlace = true

/-- The location that a path stands for in a document. -/
def locate : List PathSegment → JsValue → List PathSegment
  | [], _ => []
  | segment :: rest, current => segment.place current :: locate rest (segment.inside current)

variable {doc value result removed : JsValue} {segments loc other rest : List PathSegment}
  {segment : PathSegment}

/-- The root of a document. -/
@[simp] theorem resolvePathSegments_nil (doc : JsValue) :
    resolvePathSegments doc [] = some doc := rfl

/-- A path is followed segment by segment. -/
theorem resolvePathSegments_cons (doc : JsValue) (segment : PathSegment)
    (rest : List PathSegment) : resolvePathSegments doc (segment :: rest) =
      (segment.select doc).bind fun part => resolvePathSegments part rest :=
  List.foldlM_cons

/-- Nothing is in a new mapping. -/
theorem resolvePathSegments_empty (segment : PathSegment) (rest : List PathSegment) :
    resolvePathSegments (.obj []) (segment :: rest) = none := by
  rw [resolvePathSegments_cons]
  cases segment <;> rfl

/-- A location of no segments is that of a path of none. -/
theorem locate_eq_nil_iff : locate segments doc = [] ↔ segments = [] := by
  cases segments <;> simp [locate]

/-- What a path resolves to is at its location. -/
theorem resolvePathSegments_locate (doc : JsValue) (segments : List PathSegment) :
    resolvePathSegments doc (locate segments doc) = resolvePathSegments doc segments := by
  induction segments generalizing doc with
  | nil => rfl
  | cons segment rest ih =>
    rw [locate, resolvePathSegments_cons, resolvePathSegments_cons, PathSegment.select_place,
      PathSegment.inside]
    cases hselect : segment.select doc with
    | none => rfl
    | some part => exact ih part

/-- Deleting at a path is deleting at its location. -/
theorem deleteRecursive_locate (doc : JsValue) (segments : List PathSegment) :
    deleteRecursive (locate segments doc) doc = deleteRecursive segments doc := by
  induction segments generalizing doc with
  | nil => rfl
  | cons segment rest ih =>
    rw [locate, deleteRecursive, deleteRecursive, PathSegment.select_place, PathSegment.inside]
    cases hselect : segment.select doc with
    | none => rfl
    | some part =>
      simp only [Option.bind_eq_bind, Option.bind_some, Option.getD_some, locate_eq_nil_iff, ih,
        PathSegment.remove_place, PathSegment.put_place]

/-- Deleting at a path is deleting at its location. -/
theorem deleteAtPathSegments_locate (doc : JsValue) (segments : List PathSegment) :
    deleteAtPathSegments doc (locate segments doc) = deleteAtPathSegments doc segments := by
  simp only [deleteAtPathSegments, locate_eq_nil_iff, resolvePathSegments_locate, deepClone_eq,
    deleteRecursive_locate]

/-- Setting at a path of at least one segment sets behind the segment and puts the part there. -/
theorem setRecursive_cons_eq_ok_iff : setRecursive value (segment :: rest) doc = .ok result ↔
    segment.refusal doc = none ∧
      (rest = [] ∨ segment.enter doc = .ok (segment.inside doc)) ∧
      ∃ part, setRecursive value rest (segment.inside doc) = .ok part ∧
        result = segment.put part doc := by
  rw [setRecursive]
  cases hrefusal : segment.refusal doc with
  | some message => simp
  | none =>
    by_cases hrest : rest = []
    · subst hrest
      constructor
      · intro h
        exact ⟨rfl, .inl rfl, value, rfl, (Except.ok.inj h).symm⟩
      · rintro ⟨-, -, part, hpart, rfl⟩
        rw [← Except.ok.inj hpart]
        rfl
    · simp only [hrest, false_or, true_and]
      constructor
      · intro h
        obtain ⟨inner, hinner, h⟩ := bind_eq_ok_iff.mp h
        obtain rfl := PathSegment.enter_eq_ok hinner
        obtain ⟨part, hpart, h⟩ := bind_eq_ok_iff.mp h
        exact ⟨hinner, part, hpart, (Except.ok.inj h).symm⟩
      · rintro ⟨hinner, part, hpart, rfl⟩
        exact bind_eq_ok_iff.mpr ⟨_, hinner, bind_eq_ok_iff.mpr ⟨part, hpart, rfl⟩⟩

/-- Setting at a path is setting at its location. -/
theorem setRecursive_locate (h : setRecursive value segments doc = .ok result) :
    IsLocation (locate segments doc) ∧
      setRecursive value (locate segments doc) doc = .ok result := by
  induction segments generalizing doc result with
  | nil => exact ⟨fun _ hmem => absurd hmem List.not_mem_nil, h⟩
  | cons segment rest ih =>
    obtain ⟨hrefusal, henter, part, hpart, rfl⟩ := setRecursive_cons_eq_ok_iff.mp h
    obtain ⟨hplace, hrefusal'⟩ := PathSegment.refusal_place hrefusal
    obtain ⟨hlocation, hset⟩ := ih hpart
    have hinside : (segment.place doc).inside doc = segment.inside doc := by
      rw [PathSegment.inside, PathSegment.inside, PathSegment.select_place]
    refine ⟨?_, setRecursive_cons_eq_ok_iff.mpr ⟨hrefusal', ?_, part, ?_, ?_⟩⟩
    · rintro s hs
      rcases List.mem_cons.mp hs with rfl | hs
      · exact hplace
      · exact hlocation s hs
    · rw [locate_eq_nil_iff, PathSegment.enter_place, hinside]
      exact henter
    · rw [hinside]
      exact hset
    · rw [PathSegment.put_place]

/-! ## Setting -/

/-- The result is the document with a value at a location. -/
structure IsSetAt (doc : JsValue) (loc : List PathSegment) (value result : JsValue) : Prop where
  /-- The value is at the location. -/
  holds : resolvePathSegments result loc = some value
  /-- A location that is not above, at or below it is as it was. -/
  frame : ∀ other, IsLocation other → ¬ loc <+: other → ¬ other <+: loc →
    resolvePathSegments result other = resolvePathSegments doc other
  /-- What is new above it is a mapping with nothing but the way to it. -/
  created : ∀ above, above <+: loc → above ≠ loc → resolvePathSegments doc above = none →
    ∃ key part, above ++ [.key key] <+: loc ∧
      resolvePathSegments result above = some (.obj [(key, part)])

/-- A new mapping takes a key, and then has nothing else. -/
theorem setRecursive_empty (h : setRecursive value (segment :: rest) (.obj []) = .ok result) :
    ∃ key part, segment = .key key ∧ result = .obj [(key, part)] := by
  obtain ⟨hrefusal, -, part, -, rfl⟩ := setRecursive_cons_eq_ok_iff.mp h
  cases segment with
  | key key => exact ⟨key, part, rfl, rfl⟩
  | _ => cases hrefusal

/-- Setting at a location puts the value there and nothing else anywhere. -/
theorem isSetAt_of_setRecursive (hloc : IsLocation loc)
    (h : setRecursive value loc doc = .ok result) : IsSetAt doc loc value result := by
  induction loc generalizing doc result with
  | nil =>
    obtain rfl := Except.ok.inj h
    exact ⟨rfl, fun other _ hnot _ => absurd List.nil_prefix hnot,
      fun above habove hne => absurd (List.prefix_nil.mp habove) hne⟩
  | cons p rest ih =>
    obtain ⟨hrefusal, -, part, hpart, rfl⟩ := setRecursive_cons_eq_ok_iff.mp h
    obtain ⟨hp, hrest⟩ := List.forall_mem_cons.mp hloc
    obtain ⟨hholds, hframe, hcreated⟩ := ih hrest hpart
    have hselect : p.select (p.put part doc) = some part := PathSegment.select_put hp hrefusal
    refine ⟨?_, ?_, ?_⟩
    · rw [resolvePathSegments_cons, hselect]
      exact hholds
    · intro other hother hbelow habove
      cases other with
      | nil => exact absurd List.nil_prefix habove
      | cons q others =>
        obtain ⟨hq, hothers⟩ := List.forall_mem_cons.mp hother
        rw [resolvePathSegments_cons, resolvePathSegments_cons]
        by_cases heq : q = p
        · subst heq
          simp only [List.cons_prefix_cons, true_and] at hbelow habove
          rw [hselect, Option.bind_some, hframe others hothers hbelow habove, PathSegment.inside]
          cases hdoc : q.select doc with
          | some inner => rfl
          | none =>
            cases others with
            | nil => exact absurd List.nil_prefix habove
            | cons s others => exact resolvePathSegments_empty s others
        · rw [PathSegment.select_put_of_ne hp hq heq]
    · intro above habove hne hnone
      cases above with
      | nil => cases hnone
      | cons q above =>
        obtain ⟨rfl, hprefix⟩ := List.cons_prefix_cons.mp habove
        have hother : above ≠ rest := fun heq => hne (heq ▸ rfl)
        have hat := hcreated above hprefix hother
        rw [resolvePathSegments_cons] at hnone
        rw [resolvePathSegments_cons, hselect]
        simp only [List.cons_append, List.cons_prefix_cons, true_and, Option.bind_some]
        rw [PathSegment.inside] at hpart hat
        cases hdoc : q.select doc with
        | some inner =>
          rw [hdoc] at hnone hat
          exact hat hnone
        | none =>
          rw [hdoc] at hpart hat
          cases above with
          | cons s above => exact hat (resolvePathSegments_empty s above)
          | nil =>
            cases rest with
            | nil => exact absurd rfl hother
            | cons s rest =>
              obtain ⟨key, inner, rfl, rfl⟩ := setRecursive_empty hpart
              exact ⟨key, inner, ⟨rest, rfl⟩, rfl⟩

/-! ## Deleting -/

/-- Where the part that is at a segment after the deletion at `p` was before it: no part is at a
deleted key, and the items behind a deleted one have moved down by one. -/
def PathSegment.before : PathSegment → PathSegment → Option PathSegment
  | .key name, q => if q = .key name then none else some q
  | .index n, .index m => some (.index (if m < n then m else m + 1))
  | _, q => some q

/-- Where the part that is at a location after the deletion at `loc` was before it. -/
def before : List PathSegment → List PathSegment → Option (List PathSegment)
  | [p], q :: others => (p.before q).map (· :: others)
  | p :: rest, q :: others => if q = p then (before rest others).map (q :: ·) else some (q :: others)
  | _, other => some other

/-- The result is the document without what is at a location. -/
structure IsDeletedAt (doc : JsValue) (loc : List PathSegment) (result : JsValue) : Prop where
  /-- Something was at the location. -/
  was : (resolvePathSegments doc loc).isSome
  /-- What is at a location now, except above the deleted one, was in the document before. -/
  moved : ∀ other, IsLocation other → (other <+: loc → other = loc) →
    resolvePathSegments result other = (before loc other).bind (resolvePathSegments doc)

/-- An index selects the item there. -/
theorem PathSegment.select_index (n : ℕ) (items : List JsValue) :
    (index n).select (.arr items) = items[n]? := by
  by_cases hn : n < items.length <;> simp [select, position, hn]

/-- What is at a place after another one has been removed. -/
theorem PathSegment.select_remove {p q : PathSegment} {current part : JsValue}
    (hp : p.isPlace = true) (hq : q.isPlace = true) (h : p.select current = some part) :
    q.select (p.remove current) = (p.before q).bind fun q => q.select current := by
  cases current with
  | obj map =>
    cases p with
    | key name =>
      cases q with
      | key other =>
        by_cases hother : other = name <;> simp [select, remove, PathSegment.before, hother]
      | _ => rfl
    | _ => cases h
  | arr items =>
    cases p with
    | key name => cases h
    | «match» name value => cases hp
    | index n =>
      cases q with
      | key other => rfl
      | «match» name value => cases hq
      | index m =>
        rw [select_index] at h
        have hn : n < items.length := (List.getElem?_eq_some_iff.mp h).1
        simp only [remove, position, if_pos hn, Option.map_some, Option.getD_some,
          PathSegment.before, Option.bind_some, select_index, List.getElem?_eraseIdx]
        split_ifs <;> rfl
  | _ => cases h

/-- Deleting at a path that goes on behind a segment deletes behind it. -/
theorem deleteRecursive_cons_eq_some_iff (hrest : rest ≠ []) :
    deleteRecursive (segment :: rest) doc = some result ↔
      ∃ part inner, segment.select doc = some part ∧ deleteRecursive rest part = some inner ∧
        result = segment.put inner doc := by
  rw [deleteRecursive]
  simp only [if_neg hrest, Option.bind_eq_bind, Option.bind_eq_some_iff, Option.pure_def,
    Option.some.injEq]
  constructor
  · rintro ⟨part, hpart, inner, hinner, rfl⟩
    exact ⟨part, inner, hpart, hinner, rfl⟩
  · rintro ⟨part, inner, hpart, hinner, rfl⟩
    exact ⟨part, hpart, inner, hinner, rfl⟩

/-- Deleting at a location removes what is there and nothing else anywhere. -/
theorem isDeletedAt_of_deleteRecursive (hloc : IsLocation loc)
    (h : deleteRecursive loc doc = some result) : IsDeletedAt doc loc result := by
  induction loc generalizing doc result with
  | nil => cases h
  | cons p rest ih =>
    obtain ⟨hp, hrest⟩ := List.forall_mem_cons.mp hloc
    by_cases hlast : rest = []
    · subst hlast
      obtain ⟨part, hpart, hresult⟩ := Option.bind_eq_some_iff.mp h
      obtain rfl := Option.some.inj hresult
      refine ⟨by rw [resolvePathSegments_cons, hpart]; rfl, fun other hother hnot => ?_⟩
      cases other with
      | nil => cases hnot List.nil_prefix
      | cons q others =>
        obtain ⟨hq, -⟩ := List.forall_mem_cons.mp hother
        rw [resolvePathSegments_cons, PathSegment.select_remove hp hq hpart, before]
        cases p.before q with
        | none => rfl
        | some q' =>
          rw [Option.map_some, Option.bind_some, Option.bind_some, resolvePathSegments_cons]
    · obtain ⟨part, inner, hpart, hinner, rfl⟩ := (deleteRecursive_cons_eq_some_iff hlast).mp h
      obtain ⟨hwas, hmoved⟩ := ih hrest hinner
      refine ⟨by rw [resolvePathSegments_cons, hpart]; exact hwas, fun other hother hnot => ?_⟩
      cases other with
      | nil => cases hnot List.nil_prefix
      | cons q others =>
        obtain ⟨hq, hothers⟩ := List.forall_mem_cons.mp hother
        have hbefore : before (p :: rest) (q :: others) =
            if q = p then (before rest others).map (q :: ·) else some (q :: others) := by
          cases rest with
          | nil => exact absurd rfl hlast
          | cons s rest => rfl
        rw [hbefore]
        by_cases heq : q = p
        · subst heq
          have hnot : others <+: rest → others = rest := fun hprefix =>
            (List.cons.inj (hnot (List.cons_prefix_cons.mpr ⟨rfl, hprefix⟩))).2
          rw [resolvePathSegments_cons,
            PathSegment.select_put hp (PathSegment.refusal_of_select hpart), Option.bind_some,
            hmoved others hothers hnot, if_pos rfl]
          cases before rest others with
          | none => rfl
          | some earlier =>
            rw [Option.bind_some, Option.map_some, Option.bind_some, resolvePathSegments_cons,
              hpart, Option.bind_some]
        · rw [if_neg heq, Option.bind_some, resolvePathSegments_cons, resolvePathSegments_cons,
            PathSegment.select_put_of_ne hp hq heq]

/-- A path that resolves stands for a location. -/
theorem isLocation_locate (h : resolvePathSegments doc segments = some value) :
    IsLocation (locate segments doc) := by
  induction segments generalizing doc with
  | nil => exact fun _ hmem => absurd hmem List.not_mem_nil
  | cons segment rest ih =>
    rw [resolvePathSegments_cons] at h
    obtain ⟨part, hpart, hvalue⟩ := Option.bind_eq_some_iff.mp h
    have hplace := (PathSegment.refusal_place (PathSegment.refusal_of_select hpart)).1
    have hlocation := ih hvalue
    rw [locate, PathSegment.inside, hpart]
    exact List.forall_mem_cons.mpr ⟨hplace, hlocation⟩

/-- What a path of at least one segment resolves to can be deleted. -/
theorem exists_deleteRecursive (hne : segments ≠ [])
    (h : resolvePathSegments doc segments = some value) :
    ∃ result, deleteRecursive segments doc = some result := by
  induction segments generalizing doc with
  | nil => exact absurd rfl hne
  | cons segment rest ih =>
    rw [resolvePathSegments_cons] at h
    obtain ⟨part, hpart, hvalue⟩ := Option.bind_eq_some_iff.mp h
    by_cases hrest : rest = []
    · subst hrest
      exact ⟨segment.remove doc, by rw [deleteRecursive, hpart]; rfl⟩
    · obtain ⟨inner, hinner⟩ := ih hrest hvalue
      exact ⟨_, (deleteRecursive_cons_eq_some_iff hrest).mpr ⟨part, inner, hpart, hinner, rfl⟩⟩

/-- A deletion at a path is the deletion at a path of at least one segment that resolves. -/
theorem deleteAtPathSegments_eq_some_iff : deleteAtPathSegments doc segments = some result ↔
    segments ≠ [] ∧ (resolvePathSegments doc segments).isSome ∧
      deleteRecursive segments doc = some result := by
  rw [deleteAtPathSegments, deepClone_eq]
  split_ifs with hcond
  · simp only [false_iff, not_and]
    rintro hne hsome
    rcases hcond with hnil | hnone
    · exact absurd hnil hne
    · rw [hnone] at hsome
      cases hsome
  · obtain ⟨hne, hsome⟩ := not_or.mp hcond
    simp [hne, Option.isSome_iff_ne_none.mpr hsome]

/-! ## The lens -/

/-- Reading, setting and deleting at a path are reading, setting and deleting at one location:
a set leaves the value there, a delete removes what is there, and both leave every other
location as it was. A delete succeeds where the path has a segment and resolves. -/
theorem path_edits_at_location (doc : JsValue) (segments : List PathSegment) :
    (∀ value result, setAtPathSegments doc segments value = .ok result →
      IsLocation (locate segments doc) ∧ IsSetAt doc (locate segments doc) value result) ∧
    resolvePathSegments doc (locate segments doc) = resolvePathSegments doc segments ∧
    deleteAtPathSegments doc (locate segments doc) = deleteAtPathSegments doc segments ∧
    (∀ result, deleteAtPathSegments doc segments = some result →
      IsLocation (locate segments doc) ∧ IsDeletedAt doc (locate segments doc) result) ∧
    ((deleteAtPathSegments doc segments).isSome ↔
      segments ≠ [] ∧ (resolvePathSegments doc segments).isSome) := by
  refine ⟨?_, resolvePathSegments_locate doc segments, deleteAtPathSegments_locate doc segments,
    ?_, ?_⟩
  · intro value result h
    rw [setAtPathSegments, deepClone_eq, deepClone_eq] at h
    obtain ⟨hlocation, hset⟩ := setRecursive_locate h
    exact ⟨hlocation, isSetAt_of_setRecursive hlocation hset⟩
  · intro result h
    obtain ⟨-, hsome, hdelete⟩ := deleteAtPathSegments_eq_some_iff.mp h
    obtain ⟨value, hvalue⟩ := Option.isSome_iff_exists.mp hsome
    have hlocation := isLocation_locate hvalue
    rw [← deleteRecursive_locate] at hdelete
    exact ⟨hlocation, isDeletedAt_of_deleteRecursive hlocation hdelete⟩
  · constructor
    · intro h
      obtain ⟨result, hresult⟩ := Option.isSome_iff_exists.mp h
      obtain ⟨hne, hsome, -⟩ := deleteAtPathSegments_eq_some_iff.mp hresult
      exact ⟨hne, hsome⟩
    · rintro ⟨hne, hsome⟩
      obtain ⟨value, hvalue⟩ := Option.isSome_iff_exists.mp hsome
      obtain ⟨result, hresult⟩ := exists_deleteRecursive hne hvalue
      exact Option.isSome_iff_exists.mpr
        ⟨result, deleteAtPathSegments_eq_some_iff.mpr ⟨hne, hsome, hresult⟩⟩

/-- The root can be read and set, but not deleted. -/
theorem root_is_not_deleted :
    setAtPathSegments (.obj []) [] .null = .ok .null ∧
      resolvePathSegments (.obj []) [] = some (.obj []) ∧
      ¬ ∃ result, deleteAtPathSegments (.obj []) [] = some result := by
  refine ⟨rfl, rfl, ?_⟩
  rintro ⟨result, hresult⟩
  cases hresult

end T3x.Yops
