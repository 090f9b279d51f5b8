import T3x.Yops.Alignment
import T3x.Yops.Sequential

/-!
# What an operation leaves alone

An operation whose paths begin with a key changes the member of the root under
that key. Two operations may change one more: renaming a member of the root adds
one under the new name, and folding one puts the member that it holds in its
place. Under every other name the root reads as before.
-/

namespace T3x.Yops

open Js T3x.Run

/-! ## Paths that begin with another name -/

/-- The segments begin with a key that is none of the names. -/
def Rooted (names : List JsString) (segments : List PathSegment) : Prop :=
  ∃ root rest, segments = .key root :: rest ∧ root ∉ names

/-- Further segments do not change how a path begins. -/
theorem Rooted.append {names : List JsString} {segments : List PathSegment}
    (h : Rooted names segments) (more : List PathSegment) : Rooted names (segments ++ more) := by
  obtain ⟨root, rest, rfl, hroot⟩ := h
  exact ⟨root, rest ++ more, rfl, hroot⟩

/-- Without its last segment a path begins as before, or nothing is left of it. -/
theorem Rooted.dropLast {names : List JsString} {segments : List PathSegment}
    (h : Rooted names segments) : segments.dropLast = [] ∨ Rooted names segments.dropLast := by
  obtain ⟨root, rest, rfl, hroot⟩ := h
  cases rest with
  | nil => exact Or.inl rfl
  | cons segment rest => exact Or.inr ⟨root, (segment :: rest).dropLast, rfl, hroot⟩

/-- Of a path that is its last segment alone that segment is the key. -/
theorem Rooted.exists_key {names : List JsString} {segments : List PathSegment}
    (h : Rooted names segments) (hnil : segments.dropLast = []) :
    ∃ root, segments = [.key root] ∧ root ∉ names := by
  obtain ⟨root, rest, rfl, hroot⟩ := h
  cases rest with
  | nil => exact ⟨root, rfl, hroot⟩
  | cons segment rest => cases hnil

/-- A segment is no other for text that trails the path. -/
theorem readQuoted_append {total start : ℕ} {text key after : JsString}
    (h : readQuoted total start text = .ok (key, after)) (total' start' : ℕ) (more : JsString) :
    readQuoted total' start' (text ++ more) = .ok (key, after ++ more) := by
  fun_induction readQuoted total start text generalizing key after with
  | case1 => cases h
  | case2 => cases h
  | case3 next rest hnext ih =>
    obtain ⟨r, hr, heq⟩ := map_eq_ok_iff.mp h
    obtain ⟨rfl, rfl⟩ := Prod.mk.inj heq
    simp only [List.cons_append, readQuoted, if_true, hnext, ih hr]
    rfl
  | case4 => cases h
  | case5 rest hslash =>
    obtain ⟨rfl, rfl⟩ := Prod.mk.inj (Except.ok.inj h)
    rw [List.cons_append, readQuoted.eq_def]
    simp only [hslash, if_false, if_true]
  | case6 u rest hslash hquote ih =>
    obtain ⟨r, hr, heq⟩ := map_eq_ok_iff.mp h
    obtain ⟨rfl, rfl⟩ := Prod.mk.inj heq
    rw [List.cons_append, readQuoted.eq_def]
    simp only [hslash, hquote, if_false, ih hr]
    rfl

/-- The strict reading of a segment is the lenient one. -/
theorem classifyRawSegment_of_strict {raw : JsString} {offset : ℕ} {segment : PathSegment}
    (h : classifyStrictRawSegment raw offset = .ok segment) :
    classifyRawSegment raw = segment := by
  unfold classifyStrictRawSegment at h
  unfold classifyRawSegment
  by_cases hbracket : raw.head? = some (unit '[')
  · rw [if_pos hbracket] at h
    cases hdigits : indexDigits raw with
    | some digits =>
      simp only [hdigits] at h
      split_ifs at h
      exact Except.ok.inj h
    | none =>
      simp only [hdigits] at h
      cases hmatch : matchParts raw with
      | some parts =>
        simp only [hmatch] at h
        exact Except.ok.inj h
      | none =>
        simp only [hmatch] at h
        cases h
  · rw [if_neg hbracket] at h
    have hbody : bracketBody raw = none := by
      cases raw with
      | nil => rfl
      | cons u rest =>
        have hu : ¬ u = unit '[' := fun heq => hbracket (heq ▸ rfl)
        simp [bracketBody, hu]
    simp only [indexDigits, matchParts, hbody]
    exact Except.ok.inj h

/-- Leniently a text that begins with a quote is a key. -/
theorem classifyRawSegment_quote (raw : JsString) :
    classifyRawSegment (unit '"' :: raw) = .key (unit '"' :: raw) := by
  have hquote : ¬ (unit '"' :: raw).head? = some (unit '[') := by simp; decide
  have hstrict : classifyStrictRawSegment (unit '"' :: raw) 0 = .ok (.key (unit '"' :: raw)) :=
    if_neg hquote
  exact classifyRawSegment_of_strict hstrict

/-- The text up to the first slash is the first part of a split text. -/
theorem split_head (text : JsString) :
    ∃ parts, split (unit '/') text = (cut (unit '/') text).1 :: parts := by
  by_cases hslash : unit '/' ∈ text
  · obtain ⟨before, rest, rfl, hnot⟩ := List.eq_append_cons_of_mem hslash
    rw [split_append_cons, split_of_not_mem hnot, cut_append hnot]
    exact ⟨_, rfl⟩
  · rw [split_of_not_mem hslash, cut_of_not_mem hslash]
    exact ⟨_, rfl⟩

/-- Text that trails a slash does not change what stands before the slash. -/
theorem cut_append_slash (text more : JsString) :
    (cut (unit '/') (text ++ unit '/' :: more)).1 = (cut (unit '/') text).1 := by
  by_cases hslash : unit '/' ∈ text
  · obtain ⟨before, rest, rfl, hnot⟩ := List.eq_append_cons_of_mem hslash
    rw [List.append_assoc, List.cons_append, cut_append hnot, cut_append hnot]
  · rw [cut_append hslash, cut_of_not_mem hslash]

/-- Nothing trails a segment at whose end the text ends or a slash stands. -/
theorem cut_dropWhile (text : JsString) :
    (cut (unit '/') (text.dropWhile (· ≠ unit '/'))).1 = [] := by
  induction text with
  | nil => rfl
  | cons u rest ih =>
    by_cases hu : u = unit '/'
    · simp [hu, cut]
    · rw [List.dropWhile_cons_of_pos (by simp [hu])]
      exact ih

/-- The path is malformed, or its first segment is the first of its text with what trails it. -/
theorem tryParsePath_head {u : UInt16} {rest : JsString} {segments : List PathSegment}
    (h : tryParsePath (u :: rest) = .ok segments) :
    ∃ segment after segments', readSegment (rest.length + 1) (u :: rest) = .ok (segment, after) ∧
      segments = segment.extend (cut (unit '/') after).1 :: segments' := by
  rw [tryParsePath, if_neg (List.cons_ne_nil u rest)] at h
  simp only [parseSegments] at h
  obtain ⟨⟨segment, after⟩, hread, hrest⟩ := bind_eq_ok_iff.mp h
  by_cases hafter : after = []
  · subst hafter
    exact ⟨segment, [], [], hread, (Except.ok.inj hrest).symm⟩
  · simp only [if_neg hafter] at hrest
    obtain ⟨segments', -, heq⟩ := bind_eq_ok_iff.mp hrest
    exact ⟨segment, after, segments', hread, (Except.ok.inj heq).symm⟩

/-- A path that does not begin with a quote begins with its first part, read leniently. -/
theorem parsePath_head {u : UInt16} (hu : u ≠ unit '"') (rest : JsString) :
    ∃ segments, parsePath (u :: rest) =
      classifyRawSegment (cut (unit '/') (u :: rest)).1 :: segments := by
  unfold parsePath
  split
  · next segments hsegments =>
    obtain ⟨segment, after, segments', hread, rfl⟩ := tryParsePath_head hsegments
    rw [readSegment, if_neg hu] at hread
    obtain ⟨segment', hstrict, heq⟩ := map_eq_ok_iff.mp hread
    obtain ⟨rfl, rfl⟩ := Prod.mk.inj heq
    rw [cut_dropWhile]
    exact ⟨segments', congrArg (· :: segments') (classifyRawSegment_of_strict hstrict).symm⟩
  · obtain ⟨parts, hparts⟩ := split_head (u :: rest)
    rw [hparts]
    exact ⟨_, rfl⟩

/-- A path that begins with a quote begins with the quoted key and what trails it; if it
is malformed it begins with a key that itself begins with a quote. -/
theorem parsePath_quote (rest : JsString) :
    (∃ key after segments, (tryParsePath (unit '"' :: rest)).isOk ∧
      readQuoted (rest.length + 1) 0 rest = .ok (key, after) ∧
      parsePath (unit '"' :: rest) = .key (key ++ (cut (unit '/') after).1) :: segments) ∨
    ∃ raw segments, (tryParsePath (unit '"' :: rest)).isOk = false ∧
      parsePath (unit '"' :: rest) = .key (unit '"' :: raw) :: segments := by
  unfold parsePath
  cases hparse : tryParsePath (unit '"' :: rest) with
  | ok segments =>
    obtain ⟨segment, after, segments', hread, rfl⟩ := tryParsePath_head hparse
    rw [readSegment, if_pos rfl] at hread
    obtain ⟨⟨key, after'⟩, hquoted, heq⟩ := map_eq_ok_iff.mp hread
    obtain ⟨rfl, rfl⟩ := Prod.mk.inj heq
    refine Or.inl ⟨key, after', segments', rfl, ?_, ?_⟩
    · rw [← hquoted, List.length_cons, Nat.sub_self]
    · cases (cut (unit '/') after').1 with
      | nil => rw [List.append_nil]; rfl
      | cons v trailing => rfl
  | error e =>
    obtain ⟨parts, hparts⟩ := split_head (unit '"' :: rest)
    refine Or.inr ⟨(cut (unit '/') rest).1, parts.map classifyRawSegment, rfl, ?_⟩
    have hcut : (cut (unit '/') (unit '"' :: rest)).1 = unit '"' :: (cut (unit '/') rest).1 := by
      simp only [cut]
      exact List.takeWhile_cons_of_pos (by decide)
    rw [← classifyRawSegment_quote, ← hcut]
    exact congrArg (List.map classifyRawSegment) hparts

/-- A key below a path is reached by a path that begins as the path does, unless the key
makes the path malformed; then the path begins with the quote that it began with. -/
theorem Rooted.childPath {names : List JsString} {path : JsString}
    (hquote : ∀ name ∈ names, name.head? ≠ some (unit '"'))
    (hstrict : (tryParsePath path).isOk) (h : Rooted names (parsePath path)) (key : JsString) :
    Rooted names (parsePath (childPath path key)) := by
  obtain ⟨root, segments, hsegments, hroot⟩ := h
  cases path with
  | nil => cases hsegments
  | cons u rest =>
    rw [T3x.Yops.childPath, if_neg (List.cons_ne_nil u rest), List.cons_append]
    by_cases hu : u = unit '"'
    · subst hu
      rcases parsePath_quote rest with ⟨name, after, tail, -, hname, hparse⟩ | ⟨raw, tail, hfalse, -⟩
      · rw [hparse] at hsegments
        obtain ⟨hkey, rfl⟩ := List.cons.inj hsegments
        obtain rfl := PathSegment.key.inj hkey
        rcases parsePath_quote (rest ++ unit '/' :: key) with
          ⟨name', after', tail', -, hname', hparse'⟩ | ⟨raw, tail', -, hparse'⟩
        · rw [readQuoted_append hname] at hname'
          obtain ⟨rfl, rfl⟩ := Prod.mk.inj (Except.ok.inj hname')
          rw [cut_append_slash] at hparse'
          exact ⟨_, tail', hparse', hroot⟩
        · exact ⟨_, tail', hparse', fun hmem => hquote _ hmem rfl⟩
      · rw [hstrict] at hfalse
        cases hfalse
    · obtain ⟨tail, hparse⟩ := parsePath_head hu rest
      obtain ⟨tail', hparse'⟩ := parsePath_head hu (rest ++ unit '/' :: key)
      rw [hparse] at hsegments
      obtain ⟨hkey, rfl⟩ := List.cons.inj hsegments
      rw [← List.cons_append, cut_append_slash, hkey] at hparse'
      exact ⟨root, tail', hparse', hroot⟩

/-- A longer path that the strict parser takes begins with the same key, if the key has no quote
in front. -/
theorem parsePath_longer {path more root : JsString} {segments : List PathSegment}
    (hstrict : (tryParsePath (path ++ unit '/' :: more)).isOk)
    (hroot : root.head? ≠ some (unit '"')) (h : parsePath path = .key root :: segments) :
    ∃ segments', parsePath (path ++ unit '/' :: more) = .key root :: segments' := by
  cases path with
  | nil => cases h
  | cons u rest =>
    by_cases hu : u = unit '"'
    · subst hu
      rcases parsePath_quote rest with ⟨name, after, tail, -, hname, hparse⟩ | ⟨raw, tail, -, hparse⟩
      · rw [hparse] at h
        obtain ⟨hkey, -⟩ := List.cons.inj h
        obtain rfl := PathSegment.key.inj hkey
        rcases parsePath_quote (rest ++ unit '/' :: more) with
          ⟨name', after', tail', -, hname', hparse'⟩ | ⟨raw, tail', hfalse, -⟩
        · rw [readQuoted_append hname] at hname'
          obtain ⟨rfl, rfl⟩ := Prod.mk.inj (Except.ok.inj hname')
          rw [cut_append_slash] at hparse'
          exact ⟨tail', hparse'⟩
        · rw [← List.cons_append, hstrict] at hfalse
          cases hfalse
      · rw [hparse] at h
        obtain rfl := PathSegment.key.inj (List.cons.inj h).1
        exact absurd rfl hroot
    · obtain ⟨tail, hparse⟩ := parsePath_head hu rest
      obtain ⟨tail', hparse'⟩ := parsePath_head hu (rest ++ unit '/' :: more)
      rw [hparse] at h
      rw [← List.cons_append, cut_append_slash, (List.cons.inj h).1] at hparse'
      exact ⟨tail', hparse'⟩

/-! ## Documents that read alike under some names -/

/-- If the document is a mapping the other is one too, and under the names both read alike. -/
def Keeps (names : List JsString) (doc doc' : JsValue) : Prop :=
  ∀ root, doc = .obj root → ∃ root', doc' = .obj root' ∧
    ∀ name ∈ names, Record.get root' name = Record.get root name

section

variable {names : List JsString} {doc doc' doc'' value : JsValue} {segments : List PathSegment}

/-- A document reads as it does. -/
theorem Keeps.refl : Keeps names doc doc := fun root hroot => ⟨root, hroot, fun _ _ => rfl⟩

/-- What two steps keep is kept. -/
theorem Keeps.trans (h : Keeps names doc doc') (h' : Keeps names doc' doc'') :
    Keeps names doc doc'' := by
  intro root hroot
  obtain ⟨root', hroot', hget⟩ := h root hroot
  obtain ⟨root'', hroot'', hget'⟩ := h' root' hroot'
  exact ⟨root'', hroot'', fun name hname => (hget' name hname).trans (hget name hname)⟩

/-- A member under another name can be put in. -/
theorem keeps_put {root : JsString} (hroot : root ∉ names) (part : JsValue) :
    Keeps names doc ((PathSegment.key root).put part doc) := by
  rintro members rfl
  refine ⟨_, rfl, fun name hname => ?_⟩
  rw [Record.get_setOwn, if_neg (ne_of_mem_of_not_mem hname hroot)]

/-- A member under another name can be removed. -/
theorem keeps_remove {root : JsString} (hroot : root ∉ names) :
    Keeps names doc ((PathSegment.key root).remove doc) := by
  rintro members rfl
  refine ⟨_, rfl, fun name hname => ?_⟩
  rw [Record.get_erase, if_neg (ne_of_mem_of_not_mem hname hroot)]

/-- Setting at a path that begins with another name. -/
theorem keeps_setAtPathSegments (h : Rooted names segments)
    (hset : setAtPathSegments doc segments value = .ok doc') : Keeps names doc doc' := by
  obtain ⟨root, rest, rfl, hroot⟩ := h
  rw [setAtPathSegments, deepClone_eq, deepClone_eq, setRecursive] at hset
  split at hset
  · cases hset
  · have hput : ∃ part, doc' = (PathSegment.key root).put part doc := by
      simp only at hset
      split_ifs at hset
      all_goals
        obtain ⟨inner, -, hset⟩ := bind_eq_ok_iff.mp hset
        obtain ⟨part, -, hset⟩ := bind_eq_ok_iff.mp hset
        exact ⟨part, (Except.ok.inj hset).symm⟩
    obtain ⟨part, rfl⟩ := hput
    exact keeps_put hroot part

/-- Deleting at a path that begins with another name. -/
theorem keeps_deleteAtPathSegments (h : Rooted names segments)
    (hdelete : deleteAtPathSegments doc segments = some doc') : Keeps names doc doc' := by
  obtain ⟨root, rest, rfl, hroot⟩ := h
  rw [deleteAtPathSegments, deepClone_eq] at hdelete
  split at hdelete
  · cases hdelete
  · simp only [deleteRecursive] at hdelete
    obtain ⟨part, -, hdelete⟩ := Option.bind_eq_some_iff.mp hdelete
    split at hdelete
    · obtain rfl := Option.some.inj hdelete
      exact keeps_remove hroot
    · obtain ⟨inner, -, hdelete⟩ := Option.bind_eq_some_iff.mp hdelete
      obtain rfl := Option.some.inj hdelete
      exact keeps_put hroot inner

/-- Changing what stands at a path that begins with another name. -/
theorem keeps_updateAtPathSegments (h : Rooted names segments) (change : JsValue → JsValue) :
    Keeps names doc (updateAtPathSegments change segments doc) := by
  obtain ⟨root, rest, rfl, hroot⟩ := h
  unfold updateAtPathSegments
  split
  · exact keeps_put hroot _
  · exact Keeps.refl

/-- Changing the parent of what stands at such a path, when the change of a root keeps the names. -/
theorem keeps_updateParent (h : Rooted names segments) {change : JsValue → JsValue}
    (hchange : segments.dropLast = [] → Keeps names doc (change doc)) :
    Keeps names doc (updateAtPathSegments change segments.dropLast doc) := by
  rcases h.dropLast with hnil | hrooted
  · rw [hnil]
    exact hchange hnil
  · exact keeps_updateAtPathSegments hrooted change

/-- Deleting the children of a path, each reached by a path that begins with another name. -/
theorem keeps_deleteChildren {path : JsString} (keys : List JsString)
    (h : ∀ key, Rooted names (parsePath (childPath path key))) :
    Keeps names doc (deleteChildren doc path keys) := by
  unfold deleteChildren
  induction keys generalizing doc with
  | nil => exact Keeps.refl
  | cons key keys ih =>
    rw [List.foldl_cons]
    refine Keeps.trans ?_ ih
    cases hdelete : deleteAtPath doc (childPath path key) with
    | none => exact Keeps.refl
    | some next => exact keeps_deleteAtPathSegments (h key) hdelete

end

/-! ## The handlers -/

section

variable {T U : Type} {P : T → Prop} {Q : U → Prop}

/-- A reported error returns nothing. -/
theorem returns_report (code : String) (message : JsString) (index : ℕ) :
    Returns (report code message index : Except HandlerFailure T) P := by
  intro a ha
  cases ha

/-- A good result with the property. -/
theorem returns_ok {a : T} (h : P a) : Returns (.ok a : Except HandlerFailure T) P :=
  fun _ ha => Except.ok.inj ha ▸ h

/-- What a step gives that throws when it fails. -/
theorem returns_throwing {step : Except JsString T} (h : ∀ a, step = .ok a → P a) :
    Returns (throwing step) P := by
  intro a ha
  cases step with
  | error e => cases ha
  | ok b => exact Except.ok.inj ha ▸ h b rfl

/-- What a fold returns whose steps keep a property. -/
theorem returns_foldlM {E : Type} {items : List U} {step : T → U → Except E T} {a : T} (ha : P a)
    (h : ∀ a item, P a → Returns (step a item) P) : Returns (items.foldlM step a) P := by
  induction items generalizing a with
  | nil => exact Returns.pure ha
  | cons item items ih =>
    intro b hb
    rw [List.foldlM_cons] at hb
    obtain ⟨next, hnext, hrest⟩ := bind_eq_ok_iff.mp hb
    exact ih (h a item ha next hnext) b hrest

end

section

variable {names : List JsString} {doc : JsValue} {fields : Record JsValue} {i : ℕ}

/-- Setting at a path that begins with another name, in a handler that throws. -/
theorem returns_setAtPath {path : JsString} {value : JsValue} (h : Rooted names (parsePath path)) :
    Returns (throwing (setAtPath doc path value)) (Keeps names doc) :=
  returns_throwing fun _ hset => keeps_setAtPathSegments h hset

/-- `define` adds a member below its path. -/
theorem keeps_defineHandler (h : Rooted names (parsePath (textField fields "path"))) :
    Returns (defineHandler doc fields i) (Keeps names doc) := by
  unfold defineHandler
  simp only
  split
  · exact returns_report _ _ _
  · split
    · exact returns_report _ _ _
    · next last hlast =>
      split
      · exact returns_report _ _ _
      · refine Returns.ite (fun _ => returns_report _ _ _) fun _ => returns_ok ?_
        rw [deepClone_eq]
        refine keeps_updateParent h fun hnil => ?_
        obtain ⟨root, hsegments, hroot⟩ := h.exists_key hnil
        rw [hsegments] at hlast
        obtain rfl := Option.some.inj hlast
        exact keeps_put hroot _
      · exact returns_report _ _ _

/-- `drop` deletes at its path. -/
theorem keeps_dropHandler (h : Rooted names (parsePath (textField fields "path"))) :
    Returns (dropHandler doc fields i) (Keeps names doc) := by
  unfold dropHandler
  simp only
  split
  · next result hresult => exact returns_ok (keeps_deleteAtPathSegments h hresult)
  · exact returns_report _ _ _

/-- Under the other names renamed entries read as before. -/
theorem get_renamed {entries : Record JsValue} {oldKey newKey name : JsString}
    (hold : name ≠ oldKey) (hnew : name ≠ newKey) :
    Record.get (entries.map fun e => (if e.1 = oldKey then newKey else e.1, e.2)) name =
      Record.get entries name := by
  induction entries with
  | nil => rfl
  | cons e entries ih =>
    obtain ⟨key, value⟩ := e
    rw [List.map_cons, Record.get, Record.get, ih]
    by_cases hkey : key = oldKey
    · simp [hkey, hold.symm, hnew.symm]
    · simp [hkey]

/-- A member may take a name that is free and none of the names. -/
theorem keeps_renameKey {oldKey newKey : JsString} (hold : oldKey ∉ names) (hnew : newKey ∉ names)
    (hfree : ∀ root, doc = .obj root → Record.has root newKey = false) :
    Keeps names doc (renameKey oldKey newKey doc) := by
  rintro members rfl
  refine ⟨_, rfl, fun name hname => ?_⟩
  have hnotMem : newKey ∉ Record.keys members := by simp [Record.mem_keys, hfree members rfl]
  have hnodup : (((Record.entries members).map fun e =>
      (if e.1 = oldKey then newKey else e.1, e.2)).map Prod.fst).Nodup := by
    rw [List.map_map]
    change ((Record.entries members).map ((fun key => if key = oldKey then newKey else key) ∘
      Prod.fst)).Nodup
    rw [← List.map_map]
    refine List.Nodup.map_on (fun key hkey key' hkey' heq => ?_) (Record.keys_nodup members)
    have hne : key ≠ newKey := ne_of_mem_of_not_mem hkey hnotMem
    have hne' : key' ≠ newKey := ne_of_mem_of_not_mem hkey' hnotMem
    grind
  rw [Record.get_fromEntries hnodup, get_renamed (ne_of_mem_of_not_mem hname hold)
    (ne_of_mem_of_not_mem hname hnew), Record.get_entries]

/-- `rename` renames a member at its path; where that is a member of the root, its new
name is none of the names. -/
theorem keeps_renameHandler (h : Rooted names (parsePath (textField fields "path")))
    (hto : (parsePath (textField fields "path")).dropLast = [] → textField fields "to" ∉ names) :
    Returns (renameHandler doc fields i) (Keeps names doc) := by
  unfold renameHandler
  simp only
  split
  · exact returns_report _ _ _
  · next oldKey hresolve hlast =>
    split
    · next parent hparent =>
      refine Returns.ite (fun _ => returns_report _ _ _) fun hhas => returns_ok ?_
      rw [deepClone_eq]
      refine keeps_updateParent h fun hnil => ?_
      obtain ⟨root, hsegments, hroot⟩ := h.exists_key hnil
      rw [hnil] at hparent
      rw [hsegments] at hlast
      obtain rfl := PathSegment.key.inj (Option.some.inj hlast)
      obtain rfl := Option.some.inj hparent
      refine keeps_renameKey hroot (hto hnil) fun members hmembers => ?_
      obtain rfl := JsValue.obj.inj hmembers
      exact Bool.eq_false_iff.mpr hhas
    · exact returns_ok (by rw [deepClone_eq]; exact Keeps.refl)
  · exact returns_report _ _ _

/-- `set` sets at its path. -/
theorem keeps_setHandler (h : Rooted names (parsePath (textField fields "path"))) :
    Returns (setHandler doc fields i) (Keeps names doc) := by
  unfold setHandler
  simp only
  split
  · next result hresult => exact returns_ok (keeps_setAtPathSegments h hresult)
  · exact returns_report _ _ _

/-- `unset` deletes at its path, if anything is there. -/
theorem keeps_unsetHandler (h : Rooted names (parsePath (textField fields "path"))) :
    Returns (unsetHandler doc fields i) (Keeps names doc) := by
  have hkeeps : Keeps names doc ((deleteAtPathSegments doc
      (parsePath (textField fields "path"))).getD (deepClone doc)) := by
    cases hdelete : deleteAtPathSegments doc (parsePath (textField fields "path")) with
    | none => rw [Option.getD_none, deepClone_eq]; exact Keeps.refl
    | some next => exact keeps_deleteAtPathSegments h hdelete
  unfold unsetHandler
  simp only
  split
  · split
    · exact returns_ok hkeeps
    · exact returns_ok hkeeps
    · exact returns_report _ _ _
  · exact returns_report _ _ _

/-- `populate` sets the children of its path. -/
theorem keeps_populateHandler
    (h : ∀ key, Rooted names (parsePath (childPath (textField fields "path") key))) :
    Returns (populateHandler doc fields i) (Keeps names doc) := by
  unfold populateHandler
  refine Returns.bind fun _ => returns_foldlM Keeps.refl fun current e hkeeps => ?_
  split
  · next next hnext => exact returns_ok (hkeeps.trans (keeps_setAtPathSegments (h e.1) hnext))
  · exact returns_report _ _ _

/-- `append` sets at its path. -/
theorem keeps_appendHandler (h : Rooted names (parsePath (textField fields "path"))) :
    Returns (appendHandler doc fields i) (Keeps names doc) :=
  Returns.bind fun _ => returns_setAtPath h

/-- `move` sets at one of its paths and deletes at the other. -/
theorem keeps_moveHandler (hfrom : Rooted names (parsePath (textField fields "from")))
    (hto : Rooted names (parsePath (textField fields "to"))) :
    Returns (moveHandler doc fields i) (Keeps names doc) := by
  unfold moveHandler
  refine Returns.ite (fun _ => returns_report _ _ _) fun _ =>
    Returns.ite (fun _ => returns_report _ _ _) fun _ => Returns.bind fun value =>
    Returns.ite (fun _ => returns_report _ _ _) fun _ => ?_
  intro result hresult
  obtain ⟨moved, hmoved, hresult⟩ := bind_eq_ok_iff.mp hresult
  have hkeeps : Keeps names doc moved := by
    rw [← deepClone_eq doc]
    exact returns_setAtPath hto moved hmoved
  split at hresult
  · next final hfinal =>
    obtain rfl := Except.ok.inj hresult
    exact hkeeps.trans (keeps_deleteAtPathSegments hfrom hfinal)
  · cases hresult

/-- `clone` sets at the path that it copies to. -/
theorem keeps_cloneHandler (h : Rooted names (parsePath (textField fields "to"))) :
    Returns (cloneHandler doc fields i) (Keeps names doc) :=
  Returns.bind fun _ => Returns.ite (fun _ => returns_report _ _ _) fun _ => returns_setAtPath h

/-- Children are deleted and one is set, as `nest` and `merge` do. -/
theorem returns_regrouped {path key : JsString} {keys : List JsString} {value : JsValue}
    (h : ∀ key, Rooted names (parsePath (childPath path key))) :
    Returns (throwing (setAtPath (deleteChildren (deepClone doc) path keys) (childPath path key)
      value)) (Keeps names doc) := by
  rw [deepClone_eq]
  exact returns_throwing fun _ hset =>
    (keeps_deleteChildren keys h).trans (keeps_setAtPathSegments (h key) hset)

/-- `nest` changes children of its path. -/
theorem keeps_nestHandler
    (h : ∀ key, Rooted names (parsePath (childPath (textField fields "path") key))) :
    Returns (nestHandler doc fields i) (Keeps names doc) :=
  Returns.bind fun _ => Returns.bind fun _ =>
    Returns.ite (fun _ => returns_report _ _ _) fun _ => returns_regrouped h

/-- `split` changes children of its path. -/
theorem keeps_splitHandler
    (h : ∀ key, Rooted names (parsePath (childPath (textField fields "path") key))) :
    Returns (splitHandler doc fields i) (Keeps names doc) := by
  unfold splitHandler
  refine Returns.bind fun target => ?_
  simp only
  split
  · exact returns_report _ _ _
  · split
    · exact returns_report _ _ _
    · split
      · exact returns_report _ _ _
      · refine returns_throwing (returns_foldlM ?_ fun current e hkeeps => ?_)
        · rw [deepClone_eq]
          exact keeps_deleteChildren _ h
        · exact fun next hnext => hkeeps.trans (keeps_setAtPathSegments (h e.1) hnext)

/-- The mapping that is read at a path is what the path resolves to. -/
theorem resolvePath_of_mappingAt {code what : String} {path : JsString} {map : Record JsValue}
    (h : mappingAt code what doc path i = .ok map) : resolvePath doc path = some (.obj map) := by
  obtain ⟨value, hvalue, hmap⟩ := bind_eq_ok_iff.mp h
  rw [valueAt] at hvalue
  split at hvalue
  · next value' hresolve =>
    obtain rfl := Except.ok.inj hvalue
    split at hmap
    · obtain rfl := Except.ok.inj hmap
      exact hresolve
    · cases hmap
  · cases hvalue

/-- `fold` puts the member of the mapping at its path in the mapping's place; where that
is a member of the root, the member's name is none of the names. -/
theorem keeps_foldHandler (h : Rooted names (parsePath (textField fields "path")))
    (hchild : (parsePath (textField fields "path")).dropLast = [] → ∀ target key,
      resolvePath doc (textField fields "path") = some (.obj target) →
      Record.keys target = [key] → key ∉ names) :
    Returns (foldHandler doc fields i) (Keeps names doc) := by
  unfold foldHandler
  intro result hresult
  obtain ⟨target, htarget, hresult⟩ := bind_eq_ok_iff.mp hresult
  split at hresult
  · next childKey childValue hentries =>
    split at hresult
    · next deleted hdeleted =>
      rw [deepClone_eq] at hdeleted
      have hrooted : Rooted names
          ((parsePath (textField fields "path")).dropLast ++ [.key childKey]) := by
        rcases h.dropLast with hnil | hrooted
        · refine ⟨childKey, [], by rw [hnil]; rfl, hchild hnil target childKey
            (resolvePath_of_mappingAt htarget) ?_⟩
          rw [Record.keys, hentries]
          rfl
        · exact hrooted.append _
      exact (keeps_deleteAtPathSegments h hdeleted).trans
        (returns_throwing (fun _ hset => keeps_setAtPathSegments hrooted hset) result hresult)
    · cases hresult
  · cases hresult

/-- `merge` changes children of its path. -/
theorem keeps_mergeHandler
    (h : ∀ key, Rooted names (parsePath (childPath (textField fields "path") key))) :
    Returns (mergeHandler doc fields i) (Keeps names doc) :=
  Returns.bind fun _ => Returns.bind fun _ => Returns.bind fun _ => returns_regrouped h

/-- `sort` sets at its path. -/
theorem keeps_sortHandler (h : Rooted names (parsePath (textField fields "path"))) :
    Returns (sortHandler doc fields i) (Keeps names doc) :=
  Returns.bind fun _ => Returns.bind fun _ => returns_setAtPath h

/-- `unique` sets at its path. -/
theorem keeps_uniqueHandler (h : Rooted names (parsePath (textField fields "path"))) :
    Returns (uniqueHandler doc fields i) (Keeps names doc) :=
  Returns.bind fun _ => Returns.bind fun _ => returns_setAtPath h

/-- Members are kept by setting at a path. -/
theorem keeps_keepMembers {chosen : List JsString → JsString → Bool}
    (h : Rooted names (parsePath (textField fields "path"))) :
    Returns (keepMembers chosen doc fields i) (Keeps names doc) :=
  Returns.bind fun _ => returns_setAtPath h

/-- `pick` sets at its path. -/
theorem keeps_pickHandler (h : Rooted names (parsePath (textField fields "path"))) :
    Returns (pickHandler doc fields i) (Keeps names doc) :=
  keeps_keepMembers h

/-- `omit` sets at its path. -/
theorem keeps_omitHandler (h : Rooted names (parsePath (textField fields "path"))) :
    Returns (omitHandler doc fields i) (Keeps names doc) :=
  keeps_keepMembers h

/-- `assert` gives the document back. -/
theorem keeps_assertHandler : Returns (assertHandler doc fields i) (Keeps names doc) :=
  Returns.bind fun _ => Returns.bind fun _ => Returns.bind fun _ => Returns.pure Keeps.refl

/-! ## Operations -/

/-- Every path of the operation begins with a key that is none of the names. -/
def StaysOff (names : List JsString) (spec : OpSpec) (fields : Record JsValue) : Prop :=
  ∀ field ∈ spec.pathFields.toList, Rooted names (parsePath (textField fields field)) ∧
    (tryParsePath (textField fields field)).isOk

/-- A member of the root that is renamed or folded comes under none of the names. -/
structure Spares (names : List JsString) (opName : JsString) (fields : Record JsValue)
    (doc : JsValue) : Prop where
  /-- The new name is none of them. -/
  rename : opName = js "rename" → (parsePath (textField fields "path")).dropLast = [] →
    textField fields "to" ∉ names
  /-- The name of the one member of the folded mapping is none of them. -/
  fold : opName = js "fold" → (parsePath (textField fields "path")).dropLast = [] →
    ∀ target key, resolvePath doc (textField fields "path") = some (.obj target) →
      Record.keys target = [key] → key ∉ names

/-- Every handler keeps the names, for an operation that stays off and spares them. -/
theorem keeps_handler (hquote : ∀ name ∈ names, name.head? ≠ some (unit '"')) {spec : OpSpec}
    (hspec : spec ∈ operations) {handler : OpHandler}
    (hhandler : getHandler (js spec.name) = some handler) (hpaths : StaysOff names spec fields)
    (hspares : Spares names (js spec.name) fields doc) :
    Returns (handler doc fields i) (Keeps names doc) := by
  have hpath : "path" ∈ spec.pathFields.toList →
      Rooted names (parsePath (textField fields "path")) := fun hmem => (hpaths _ hmem).1
  have hchild : "path" ∈ spec.pathFields.toList → ∀ key,
      Rooted names (parsePath (childPath (textField fields "path") key)) := fun hmem key =>
    (hpaths _ hmem).1.childPath hquote (hpaths _ hmem).2 key
  simp only [operations, List.mem_cons, List.not_mem_nil, or_false] at hspec
  rcases hspec with rfl | rfl | rfl | rfl | rfl | rfl | rfl | rfl | rfl | rfl | rfl | rfl | rfl |
    rfl | rfl | rfl | rfl | rfl <;> obtain rfl := Option.some.inj hhandler
  · exact keeps_defineHandler (hpath (by decide))
  · exact keeps_dropHandler (hpath (by decide))
  · exact keeps_renameHandler (hpath (by decide)) (hspares.rename rfl)
  · exact keeps_setHandler (hpath (by decide))
  · exact keeps_unsetHandler (hpath (by decide))
  · exact keeps_populateHandler (hchild (by decide))
  · exact keeps_appendHandler (hpath (by decide))
  · exact keeps_moveHandler (hpaths "from" (by decide)).1 (hpaths "to" (by decide)).1
  · exact keeps_cloneHandler (hpaths "to" (by decide)).1
  · exact keeps_nestHandler (hchild (by decide))
  · exact keeps_splitHandler (hchild (by decide))
  · exact keeps_foldHandler (hpath (by decide)) (hspares.fold rfl)
  · exact keeps_mergeHandler (hchild (by decide))
  · exact keeps_sortHandler (hpath (by decide))
  · exact keeps_uniqueHandler (hpath (by decide))
  · exact keeps_pickHandler (hpath (by decide))
  · exact keeps_omitHandler (hpath (by decide))
  · exact keeps_assertHandler

end

section

variable {issueMessage : JsValue → JsString} {names : List JsString} {doc next : JsValue}

/-- An operation that is applied gives what its handler gives. -/
theorem Fits.handler_of_applyStep {source : Shape} {op : Record JsValue} {spec : OpSpec}
    {payload : Record JsValue} (h : Fits source op spec payload)
    (hstep : applyStep issueMessage (.obj op) doc = some next) :
    (∀ path ∈ pathTexts spec payload, (tryParsePath path).isOk) ∧
      ∃ handler, getHandler (js spec.name) = some handler ∧ handler doc payload 0 = .ok next := by
  have hop := applyOp_of_applyStep 0 hstep
  rw [applyOp_eq_checkUpFront] at hop
  obtain ⟨call, hcall, hrun⟩ := bind_eq_ok_iff.mp hop
  constructor
  · intro path hpath
    rw [← h.getOpPaths_eq] at hpath
    obtain ⟨segments, hparse⟩ := ((checkUpFront_ok_iff issueMessage 0).mp ⟨call, hcall⟩).2 path hpath
    rw [hparse]
    rfl
  · obtain ⟨handler, hhandler, hresolve⟩ := h.resolveCall 0
    refine ⟨handler, hhandler, ?_⟩
    obtain ⟨call', hresolve', hrest⟩ := bind_eq_ok_iff.mp hcall
    obtain ⟨-, -, hcall'⟩ := bind_eq_ok_iff.mp hrest
    obtain rfl := Except.ok.inj (hresolve.symm.trans hresolve')
    obtain rfl := Except.ok.inj hcall'
    unfold runHandler at hrun
    split at hrun
    · next result hresult =>
      obtain rfl := Except.ok.inj hrun
      exact hresult
    · cases hrun
    · cases hrun

/-- An operation with one name that is applied goes to the handler of the name. -/
theorem handler_of_singleton {name : String} {payload : Record JsValue}
    (hname : js name ≠ js "source")
    (hstep : applyStep issueMessage (.obj [(js name, .obj payload)]) doc = some next) :
    ∃ spec handler, getOpSpec (js name) = some spec ∧ getHandler (js name) = some handler ∧
      (∀ path ∈ pathTexts spec payload, (tryParsePath path).isOk) ∧
      handler doc payload 0 = .ok next := by
  have hop := applyOp_of_applyStep 0 hstep
  rw [applyOp_eq_checkUpFront] at hop
  obtain ⟨call, hcall, -⟩ := bind_eq_ok_iff.mp hop
  obtain ⟨hschema, -⟩ := (checkUpFront_ok_iff issueMessage 0).mp ⟨call, hcall⟩
  obtain ⟨op, spec, payload', hop', hfits⟩ := unionSchema_iff.mp hschema
  obtain rfl := JsValue.obj.inj hop'
  have hbody : Record.get [(js name, JsValue.obj payload)] (js name) = some (.obj payload) := by
    simp [Record.get]
  have hspec : js name = js spec.name :=
    (hfits.keys _ (Record.mem_keys.mpr (Record.has_eq_true.mpr ⟨_, hbody⟩))).resolve_right hname
  obtain rfl : payload = payload' := by
    have heq := hfits.body
    rw [← hspec, hbody] at heq
    exact JsValue.obj.inj (Option.some.inj heq)
  obtain ⟨hparses, handler, hhandler, hresult⟩ := hfits.handler_of_applyStep hstep
  rw [← hspec] at hhandler
  refine ⟨spec, handler, ?_, hhandler, hparses, hresult⟩
  rw [hspec]
  exact (getOpSpec_of_mem hfits.known).1

end

end T3x.Yops
