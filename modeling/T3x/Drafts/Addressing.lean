import T3x.Drafts.Lineage
import T3x.Yops.Quoting

/-!
# Paths as addresses of the nodes

A location of a document is a list of keys that leads through mappings. The paths of a
document are the texts of its locations, each of them once, and distinct locations have
distinct texts. A text is read back as its location when every key in it that must be
quoted is readable. Otherwise it is malformed, falls apart at its slashes and finds the
value of the location only by coincidence.
-/

namespace T3x.Drafts

open Js T3x.Yops

/-! ## Locations -/

/-- The member of a mapping. -/
def memberAt : JsValue → JsString → Option JsValue
  | .obj members, key => Record.get members key
  | _, _ => none

/-- The value to which keys lead through mappings. -/
def valueAt (doc : JsValue) (keys : List JsString) : Option JsValue := keys.foldlM memberAt doc

/-- Keys that lead to a member of a mapping of the document. -/
def IsLocation (doc : JsValue) (keys : List JsString) : Prop :=
  keys ≠ [] ∧ (valueAt doc keys).isSome

/-- The text of a location. -/
def locationPath (keys : List JsString) : JsString := join (unit '/') (keys.map pathSegment)

/-- The locations of a value, in the order in which `documentPaths` lists them. -/
def locations : JsValue → List (List JsString) :=
  JsValue.fold
    { null := []
      bool := fun _ => []
      num := fun _ => []
      str := fun _ => []
      arr := fun _ => []
      obj := fun readings => (sortBy compareCodeUnits (Record.keys readings)).flatMap fun key =>
        [key] :: ((Record.get readings key).getD []).map (key :: ·) }

variable {members : Record JsValue} {doc value : JsValue} {key : JsString}
  {keys keys' : List JsString} {tail tail' : JsString} {total fuel : ℕ}

/-- The locations of a mapping are its keys, each followed by the locations below it. -/
theorem locations_obj (members : Record JsValue) :
    locations (.obj members) =
      (sortBy compareCodeUnits (Record.keys members)).flatMap fun key =>
        [key] :: (((Record.get members key).map locations).getD []).map (key :: ·) := by
  unfold locations
  simp only [JsValue.fold_obj, Record.keys_mapValues, Record.get_mapValues]

/-- The value at a location of one key more. -/
theorem valueAt_cons (doc : JsValue) (key : JsString) (keys : List JsString) :
    valueAt doc (key :: keys) = (memberAt doc key).bind fun part => valueAt part keys := rfl

/-- A location begins with a key of the mapping and goes on below it. -/
theorem isLocation_cons_iff :
    IsLocation doc (key :: keys) ↔
      ∃ part, memberAt doc key = some part ∧ (keys = [] ∨ IsLocation part keys) := by
  unfold IsLocation
  rw [valueAt_cons]
  cases memberAt doc key with
  | none => simp
  | some part =>
    cases keys with
    | nil => simp [valueAt]
    | cons k keys => simp

/-- The locations listed are the locations. -/
theorem mem_locations_iff : keys ∈ locations doc ↔ IsLocation doc keys := by
  have hnone : ∀ doc : JsValue, isMapping doc = false → ∀ keys, ¬ IsLocation doc keys := by
    rintro doc hdoc keys ⟨hne, hsome⟩
    obtain ⟨key, rest, rfl⟩ := List.exists_cons_of_ne_nil hne
    cases doc <;> simp_all [isMapping, valueAt_cons, memberAt]
  induction doc using JsValue.induct generalizing keys with
  | obj members ih =>
    simp only [locations_obj, List.mem_flatMap, (sortBy_perm _ _).mem_iff, Record.mem_keys,
      Record.has_eq_true, List.mem_cons, List.mem_map]
    constructor
    · rintro ⟨key, ⟨part, hpart⟩, rfl | ⟨rest, hrest, rfl⟩⟩
      · exact isLocation_cons_iff.mpr ⟨part, hpart, .inl rfl⟩
      · rw [hpart] at hrest
        have hbelow := (ih _ (Record.mem_of_get hpart)).mp hrest
        exact isLocation_cons_iff.mpr ⟨part, hpart, .inr hbelow⟩
    · intro hloc
      obtain ⟨key, rest, rfl⟩ := List.exists_cons_of_ne_nil hloc.1
      obtain ⟨part, hpart, hrest⟩ := isLocation_cons_iff.mp hloc
      refine ⟨key, ⟨part, hpart⟩, ?_⟩
      rcases hrest with rfl | hrest
      · exact .inl rfl
      · have hpart' : Record.get members key = some part := hpart
        rw [hpart']
        exact .inr ⟨rest, (ih _ (Record.mem_of_get hpart')).mpr hrest, rfl⟩
  | _ => exact iff_of_false List.not_mem_nil (hnone _ rfl _)

/-- Each location is listed once. -/
theorem nodup_locations (doc : JsValue) : (locations doc).Nodup := by
  induction doc using JsValue.induct with
  | obj members ih =>
    rw [locations_obj, List.nodup_flatMap]
    have hkeys : (sortBy compareCodeUnits (Record.keys members)).Nodup :=
      (sortBy_perm _ _).nodup_iff.mpr (Record.keys_nodup members)
    refine ⟨fun key _ => ?_, hkeys.imp fun {key key'} hne => ?_⟩
    · have hbelow : (((Record.get members key).map locations).getD []).Nodup := by
        cases hget : Record.get members key with
        | none => exact List.nodup_nil
        | some part => exact ih _ (Record.mem_of_get hget)
      have hnil : [] ∉ ((Record.get members key).map locations).getD [] := by
        cases hget : Record.get members key with
        | none => exact List.not_mem_nil
        | some part => exact fun hmem => (mem_locations_iff.mp hmem).1 rfl
      refine List.nodup_cons.mpr ⟨fun hmem => ?_, hbelow.map List.cons_injective⟩
      obtain ⟨rest, hrest, heq⟩ := List.mem_map.mp hmem
      obtain rfl : rest = [] := (List.cons.inj heq).2
      exact hnil hrest
    · refine List.disjoint_left.mpr fun keys hmem hmem' => hne ?_
      have hhead : ∀ (k : JsString) (rests : List (List JsString)),
          keys ∈ [k] :: rests.map (k :: ·) → keys.head? = some k := by
        rintro k rests (_ | ⟨_, hmem⟩)
        · rfl
        · obtain ⟨rest, -, rfl⟩ := List.mem_map.mp hmem
          rfl
      exact Option.some.inj ((hhead _ _ hmem).symm.trans (hhead _ _ hmem'))
  | _ => exact List.nodup_nil

/-! ## The texts of locations -/

/-- A path below a prefix. -/
def pathBelow (base path : JsString) : JsString :=
  if base = [] then path else base ++ unit '/' :: path

/-- A key that stands in a path as it is. -/
def IsPlain (key : JsString) : Prop :=
  key ≠ [] ∧ ∀ u ∈ key, u ∉ js "/[]=\"\\"

/-- A plain key is its own segment. -/
theorem pathSegment_of_isPlain (h : IsPlain key) : pathSegment key = key := by
  have hany : ¬ (key.any fun u => (js "/[]=\"\\").contains u) = true := by
    simpa using h.2
  exact if_neg (not_or.mpr ⟨h.1, hany⟩)

/-- Any other key is quoted. -/
theorem pathSegment_of_not_isPlain (h : ¬ IsPlain key) : pathSegment key = quote key := by
  refine if_pos ?_
  by_cases hnil : key = []
  · exact .inl hnil
  · have hany : ∃ u ∈ key, u ∈ js "/[]=\"\\" := by
      by_contra hnone
      push Not at hnone
      exact h ⟨hnil, hnone⟩
    exact .inr (by simpa using hany)

/-- A segment is not empty. -/
theorem pathSegment_ne_nil (key : JsString) : pathSegment key ≠ [] := by
  by_cases h : IsPlain key
  · rw [pathSegment_of_isPlain h]
    exact h.1
  · rw [pathSegment_of_not_isPlain h]
    exact List.cons_ne_nil _ _

/-- A plain key does not begin as a quoted one does. -/
theorem IsPlain.append_ne_quote (h : IsPlain key) (tail : JsString) (key' tail' : JsString) :
    key ++ tail ≠ quote key' ++ tail' := by
  obtain ⟨hne, hunits⟩ := h
  obtain ⟨u, rest, rfl⟩ := List.exists_cons_of_ne_nil hne
  intro heq
  have hu : u = unit '"' := (List.cons.inj heq).1
  exact hunits u List.mem_cons_self (by rw [hu]; decide)

/-- A segment ends where the next one starts. -/
theorem pathSegment_append_inj {key' : JsString} (htail : Ends tail) (htail' : Ends tail')
    (h : pathSegment key ++ tail = pathSegment key' ++ tail') : key = key' ∧ tail = tail' := by
  by_cases hplain : IsPlain key
  · by_cases hplain' : IsPlain key'
    · rw [pathSegment_of_isPlain hplain, pathSegment_of_isPlain hplain'] at h
      have hslash : unit '/' ∉ key := fun hmem => hplain.2 _ hmem (by decide)
      have hslash' : unit '/' ∉ key' := fun hmem => hplain'.2 _ hmem (by decide)
      obtain ⟨htake, hdrop⟩ := takeWhile_ends hslash htail
      obtain ⟨htake', hdrop'⟩ := takeWhile_ends hslash' htail'
      rw [h] at htake hdrop
      exact ⟨htake.symm.trans htake', hdrop.symm.trans hdrop'⟩
    · rw [pathSegment_of_isPlain hplain, pathSegment_of_not_isPlain hplain'] at h
      exact absurd h (hplain.append_ne_quote _ _ _)
  · by_cases hplain' : IsPlain key'
    · rw [pathSegment_of_not_isPlain hplain, pathSegment_of_isPlain hplain'] at h
      exact absurd h.symm (hplain'.append_ne_quote _ _ _)
    · rw [pathSegment_of_not_isPlain hplain, pathSegment_of_not_isPlain hplain'] at h
      exact quote_append_inj h

/-- What stands behind the first segment of a location. -/
def pathTail : List JsString → JsString
  | [] => []
  | keys => unit '/' :: locationPath keys

/-- A location is written segment by segment. -/
theorem locationPath_cons (key : JsString) (keys : List JsString) :
    locationPath (key :: keys) = pathSegment key ++ pathTail keys := by
  cases keys with
  | nil => exact (join_singleton _ _).trans (List.append_nil _).symm
  | cons k keys => exact join_cons_cons _ _ _ _

/-- The next segment starts with a slash. -/
theorem ends_pathTail (keys : List JsString) : Ends (pathTail keys) := by
  cases keys with
  | nil => exact .inl rfl
  | cons k keys => exact .inr ⟨_, rfl⟩

/-- A text belongs to one location. -/
theorem locationPath_inj (hne : keys ≠ []) (hne' : keys' ≠ [])
    (h : locationPath keys = locationPath keys') : keys = keys' := by
  induction keys generalizing keys' with
  | nil => exact absurd rfl hne
  | cons key keys ih =>
    obtain ⟨key', keys', rfl⟩ := List.exists_cons_of_ne_nil hne'
    rw [locationPath_cons, locationPath_cons] at h
    obtain ⟨rfl, htail⟩ := pathSegment_append_inj (ends_pathTail _) (ends_pathTail _) h
    cases keys with
    | nil =>
      cases keys' with
      | nil => rfl
      | cons k' keys' => cases htail
    | cons k keys =>
      cases keys' with
      | nil => cases htail
      | cons k' keys' =>
        have hrest := ih (List.cons_ne_nil _ _) (List.cons_ne_nil _ _) (List.cons.inj htail).2
        rw [hrest]

/-! ## The paths of a document -/

/-- The reading of a mapping. -/
theorem pathsReading_obj (members : Record JsValue) :
    pathsReading (.obj members) = ⟨true, memberPaths (Record.mapValues pathsReading members)⟩ := by
  unfold pathsReading
  rw [JsValue.fold_obj]

/-- The paths of a mapping below a prefix are the texts of its locations there. -/
theorem paths_pathsReading (members : Record JsValue) (base : JsString) :
    (pathsReading (.obj members)).paths base =
      (locations (.obj members)).map fun keys => pathBelow base (locationPath keys) := by
  suffices hall : ∀ value, (pathsReading value).mapping = isMapping value ∧
      ∀ base, isMapping value = true → (pathsReading value).paths base =
        (locations value).map fun keys => pathBelow base (locationPath keys) from
    (hall (.obj members)).2 base rfl
  intro value
  induction value using JsValue.induct with
  | obj members ih =>
    rw [pathsReading_obj]
    refine ⟨rfl, fun base _ => ?_⟩
    simp only [memberPaths, Record.keys_mapValues, Record.get_mapValues, locations_obj,
      List.map_flatMap, List.map_cons, List.map_map]
    refine List.flatMap_congr fun key _ => ?_
    have hpath : (if base = [] then pathSegment key else base ++ unit '/' :: pathSegment key) =
        pathBelow base (locationPath [key]) := by
      rw [locationPath_cons, pathTail, List.append_nil, pathBelow]
    rw [hpath]
    refine congrArg _ ?_
    cases hget : Record.get members key with
    | none => rfl
    | some part =>
      obtain ⟨hmapping, hpaths⟩ := ih _ (Record.mem_of_get hget)
      simp only [Option.map_some, Option.getD_some, hmapping]
      cases hpart : isMapping part with
      | false =>
        have hleaf : locations part = [] := by
          cases part <;> first | rfl | cases hpart
        rw [hleaf]
        rfl
      | true =>
        rw [if_pos rfl, hpaths _ hpart]
        refine List.map_congr_left fun keys hkeys => ?_
        obtain ⟨k, rest, rfl⟩ := List.exists_cons_of_ne_nil (mem_locations_iff.mp hkeys).1
        have hbase : pathBelow base (locationPath [key]) ≠ [] := by
          rw [locationPath_cons, pathTail, List.append_nil, pathBelow]
          split_ifs
          · exact pathSegment_ne_nil key
          · exact List.append_ne_nil_of_right_ne_nil _ (List.cons_ne_nil _ _)
        rw [Function.comp_apply, pathBelow.eq_1 _ (locationPath (k :: rest)), if_neg hbase]
        simp only [locationPath_cons, pathTail, List.append_nil, pathBelow]
        split_ifs <;> simp
  | _ => exact ⟨rfl, fun _ h => by cases h⟩

/-- The paths of a mapping are the texts of its locations. -/
theorem documentPaths_obj (members : Record JsValue) :
    documentPaths (.obj members) = (locations (.obj members)).map locationPath := by
  rw [documentPaths, paths_pathsReading]
  rfl

/-! ## Reading a path back -/

/-- A key that is read back from its segment: a plain one or one readable in quotes. -/
def IsLegible (key : JsString) : Prop := IsPlain key ∨ isReadable key = true

/-- The segment of a legible key is read back. -/
theorem readSegment_pathSegment (h : IsLegible key) (htail : Ends tail) :
    readSegment total (pathSegment key ++ tail) = .ok (.key key, tail) := by
  by_cases hplain : IsPlain key
  · have hunits : ∀ c ∈ js "/[]=\"\\", c ∉ key := fun c hc hmem => hplain.2 c hmem hc
    have hhead : ∀ c ∈ js "/[]=\"\\", key.head? ≠ some c := fun c hc hhead =>
      hunits c hc (List.mem_of_mem_head? hhead)
    rw [pathSegment_of_isPlain hplain]
    refine readSegment_plain hplain.1 (hhead _ (by decide)) (hunits _ (by decide)) htail
      fun offset => ?_
    exact if_neg (hhead _ (by decide))
  · rw [pathSegment_of_not_isPlain hplain]
    exact readSegment_quote (h.resolve_left hplain) tail

/-- The segment of another key is malformed. -/
theorem readSegment_pathSegment_error (h : ¬ IsLegible key) (tail : JsString) :
    ∃ e, readSegment total (pathSegment key ++ tail) = .error e := by
  obtain ⟨hplain, hreadable⟩ := not_or.mp h
  rw [pathSegment_of_not_isPlain hplain]
  exact readSegment_quote_error (Bool.eq_false_of_not_eq_true hreadable) tail

/-- One segment of a location is read and then the others. -/
theorem parseSegments_locationPath_cons (h : IsLegible key) (keys : List JsString) :
    parseSegments total (fuel + 1) (locationPath (key :: keys)) =
      if keys = [] then .ok [.key key]
      else (parseSegments total fuel (locationPath keys)).map (.key key :: ·) := by
  have hread : readSegment total (pathSegment key ++ pathTail keys) =
      .ok (.key key, pathTail keys) := readSegment_pathSegment h (ends_pathTail keys)
  obtain ⟨u, text, htext⟩ := List.exists_cons_of_ne_nil
    (List.append_ne_nil_of_left_ne_nil (pathSegment_ne_nil key) (pathTail keys))
  rw [locationPath_cons]
  rw [htext] at hread ⊢
  rw [parseSegments.eq_3 _ _ _ (by simp), hread]
  cases keys with
  | nil => rfl
  | cons k keys =>
    have hcut : cut (unit '/') (unit '/' :: locationPath (k :: keys)) =
        ([], locationPath (k :: keys)) := cut_append List.not_mem_nil
    rw [if_neg (List.cons_ne_nil _ _)]
    simp only [pathTail, bind, Except.bind, if_neg (List.cons_ne_nil (unit '/') _), hcut]
    cases parseSegments total fuel (locationPath (k :: keys)) <;> rfl

/-- Legible keys are read back from the text of their location. -/
theorem parseSegments_of_isLegible (hne : keys ≠ []) (h : ∀ key ∈ keys, IsLegible key)
    (hfuel : keys.length ≤ fuel) :
    parseSegments total fuel (locationPath keys) = .ok (keys.map .key) := by
  induction keys generalizing fuel with
  | nil => exact absurd rfl hne
  | cons key keys ih =>
    obtain ⟨hkey, hkeys⟩ := List.forall_mem_cons.mp h
    obtain ⟨fuel, rfl⟩ : ∃ f, fuel = f + 1 := ⟨fuel - 1, by simp at hfuel; omega⟩
    rw [parseSegments_locationPath_cons hkey]
    split_ifs with hnil
    · rw [hnil]
      rfl
    · rw [ih hnil hkeys (by simpa using hfuel)]
      rfl

/-- The text of a location with another key is malformed. -/
theorem parseSegments_of_not_isLegible (h : ∃ key ∈ keys, ¬ IsLegible key)
    (hfuel : keys.length ≤ fuel) :
    ∃ e, parseSegments total fuel (locationPath keys) = .error e := by
  induction keys generalizing fuel with
  | nil => simp at h
  | cons key keys ih =>
    obtain ⟨fuel, rfl⟩ : ∃ f, fuel = f + 1 := ⟨fuel - 1, by simp at hfuel; omega⟩
    by_cases hkey : IsLegible key
    · have hrest : ∃ key ∈ keys, ¬ IsLegible key := by simpa [hkey] using h
      have hnil : keys ≠ [] := by
        rintro rfl
        simp at hrest
      obtain ⟨e, he⟩ := ih hrest (by simpa using hfuel)
      rw [parseSegments_locationPath_cons hkey, if_neg hnil, he]
      exact ⟨e, rfl⟩
    · obtain ⟨e, he⟩ : ∃ e, readSegment total (pathSegment key ++ pathTail keys) = .error e :=
        readSegment_pathSegment_error hkey (pathTail keys)
      obtain ⟨u, text, htext⟩ := List.exists_cons_of_ne_nil
        (List.append_ne_nil_of_left_ne_nil (pathSegment_ne_nil key) (pathTail keys))
      rw [locationPath_cons]
      rw [htext] at he ⊢
      rw [parseSegments.eq_3 _ _ _ (by simp), he]
      exact ⟨e, rfl⟩

/-- A location has no more keys than its text has characters. -/
theorem length_le_locationPath (keys : List JsString) :
    keys.length ≤ (locationPath keys).length := by
  induction keys with
  | nil => exact Nat.zero_le _
  | cons key keys ih =>
    have hpos := List.length_pos_of_ne_nil (pathSegment_ne_nil key)
    rw [locationPath_cons]
    cases keys with
    | nil => simpa [pathTail, Nat.succ_le_iff, List.length_pos_iff] using pathSegment_ne_nil key
    | cons k keys =>
      simp only [pathTail, List.length_append, List.length_cons] at ih ⊢
      omega

/-- The text of a location is not empty. -/
theorem locationPath_ne_nil (hne : keys ≠ []) : locationPath keys ≠ [] := by
  intro hnil
  have hlength := length_le_locationPath keys
  rw [hnil] at hlength
  exact hne (List.length_eq_zero_iff.mp (Nat.le_zero.mp hlength))

/-- The text of a location is read back as its keys if they are legible. -/
theorem parsePath_of_isLegible (hne : keys ≠ []) (h : ∀ key ∈ keys, IsLegible key) :
    parsePath (locationPath keys) = keys.map .key := by
  have hlength := length_le_locationPath keys
  have hparse : tryParsePath (locationPath keys) = .ok (keys.map .key) := by
    rw [tryParsePath, if_neg (locationPath_ne_nil hne)]
    exact parseSegments_of_isLegible hne h (by omega)
  rw [parsePath, hparse]

/-- The text of a location falls apart at its slashes if one of its keys is not legible. -/
theorem parsePath_of_not_isLegible (hne : keys ≠ []) (h : ∃ key ∈ keys, ¬ IsLegible key) :
    parsePath (locationPath keys) =
      (split (unit '/') (locationPath keys)).map classifyRawSegment := by
  have hlength := length_le_locationPath keys
  obtain ⟨e, he⟩ : ∃ e, parseSegments (locationPath keys).length ((locationPath keys).length + 1)
      (locationPath keys) = .error e := parseSegments_of_not_isLegible h (by omega)
  have hparse : tryParsePath (locationPath keys) = .error e := by
    rw [tryParsePath, if_neg (locationPath_ne_nil hne)]
    exact he
  rw [parsePath, hparse]

/-- Keys select the members of mappings. -/
theorem resolvePathSegments_keys (doc : JsValue) (keys : List JsString) :
    resolvePathSegments doc (keys.map .key) = valueAt doc keys := by
  have hselect : ∀ (value : JsValue) (key : JsString),
      (PathSegment.key key).select value = memberAt value key := by
    intro value key
    cases value <;> rfl
  rw [resolvePathSegments, valueAt, List.foldlM_map]
  simp only [hselect]

/-! ## Addresses -/

/-- The paths of a document address it. -/
structure PathsAddress (doc : JsValue) : Prop where
  /-- Each path is listed once. -/
  once : (documentPaths doc).Nodup
  /-- The paths listed are the texts of the locations. -/
  listed : ∀ path, path ∈ documentPaths doc ↔ ∃ keys, IsLocation doc keys ∧ locationPath keys = path
  /-- Distinct locations have distinct paths. -/
  distinct : ∀ keys keys', IsLocation doc keys → IsLocation doc keys' →
    locationPath keys = locationPath keys' → keys = keys'
  /-- The path of a location is read as the value there. -/
  read : ∀ keys, IsLocation doc keys → mappingGet doc (locationPath keys) = valueAt doc keys

/-- The pieces into which the path of a location falls at its slashes lead to the value there. -/
def PiecesLead (doc : JsValue) (keys : List JsString) : Prop :=
  resolvePathSegments doc ((split (unit '/') (locationPath keys)).map classifyRawSegment) =
    valueAt doc keys

/-- The paths of a mapping are distinct texts of its locations. -/
theorem nodup_documentPaths (members : Record JsValue) :
    (documentPaths (.obj members)).Nodup := by
  rw [documentPaths_obj]
  refine (List.nodup_map_iff_inj_on (nodup_locations _)).mpr fun keys hkeys keys' hkeys' heq => ?_
  exact locationPath_inj (mem_locations_iff.mp hkeys).1 (mem_locations_iff.mp hkeys').1 heq

/-- The paths of a mapping are the texts of its locations. -/
theorem mem_documentPaths_iff {path : JsString} :
    path ∈ documentPaths (.obj members) ↔
      ∃ keys, IsLocation (.obj members) keys ∧ locationPath keys = path := by
  simp only [documentPaths_obj, List.mem_map, mem_locations_iff]

/-- The path of a location is read as the value there exactly if its keys are legible or its
pieces lead there. -/
theorem mappingGet_locationPath_iff (hne : keys ≠ []) :
    mappingGet doc (locationPath keys) = valueAt doc keys ↔
      (∀ key ∈ keys, IsLegible key) ∨ PiecesLead doc keys := by
  rw [mappingGet, resolvePath]
  by_cases hlegible : ∀ key ∈ keys, IsLegible key
  · rw [parsePath_of_isLegible hne hlegible, resolvePathSegments_keys]
    exact iff_of_true rfl (.inl hlegible)
  · have hsome : ∃ key ∈ keys, ¬ IsLegible key := by
      push Not at hlegible
      exact hlegible
    rw [parsePath_of_not_isLegible hne hsome]
    exact ⟨.inr, fun h => h.resolve_left hlegible⟩

/-- The paths of a mapping address it exactly if at each location the keys are legible or the
pieces of the path lead to the value all the same. -/
theorem pathsAddress_iff (members : Record JsValue) :
    PathsAddress (.obj members) ↔
      ∀ keys, IsLocation (.obj members) keys →
        (∀ key ∈ keys, IsLegible key) ∨ PiecesLead (.obj members) keys := by
  constructor
  · intro h keys hkeys
    exact (mappingGet_locationPath_iff hkeys.1).mp (h.read keys hkeys)
  · intro h
    exact
      { once := nodup_documentPaths members
        listed := fun path => mem_documentPaths_iff
        distinct := fun keys keys' hkeys hkeys' => locationPath_inj hkeys.1 hkeys'.1
        read := fun keys hkeys => (mappingGet_locationPath_iff hkeys.1).mpr (h keys hkeys) }

/-- A key with a slash and a line break is quoted with an escape that the parser does not know,
so its path reads nothing. -/
theorem not_pathsAddress_brokenKey : ¬ PathsAddress (.obj [(js "/\n", .bool true)]) := by
  intro h
  have hread := h.read [js "/\n"] ⟨List.cons_ne_nil _ _, by decide⟩
  revert hread
  decide

end T3x.Drafts
