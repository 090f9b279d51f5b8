import T3x.Js.Integers
import T3x.Yops.Path

/-!
# Printing paths

A path is printed segment by segment. A key that is empty or has a character
with a meaning in paths is quoted; an index and a match stand in brackets. The
strict parser reads the printed text back as the segments it was printed for,
whatever stands next to each of them.
-/

namespace T3x.Yops

open Js

/-! ## The printer -/

/-- The characters that have a meaning in paths. -/
def reservedUnits : JsString := js "/\"\\[]="

/-- `formatPathSegment`. -/
def formatPathSegment : PathSegment → JsString
  | .index value => js "[" ++ indexText value ++ js "]"
  | .match key value => js "[" ++ key ++ js "=" ++ value ++ js "]"
  | .key value =>
    if value ≠ [] ∧ (value.all fun u => !reservedUnits.contains u) = true then value
    else js "\"" ++ replaceAll (js "\"") (js "\\\"") (replaceAll (js "\\") (js "\\\\") value) ++
      js "\""

/-- A text is plain if none of its code units is reserved. -/
theorem all_not_reserved_iff {value : JsString} :
    (value.all fun u => !reservedUnits.contains u) = true ↔ ∀ u ∈ value, u ∉ reservedUnits := by
  simp

/-- A plain key is printed as it is. -/
theorem formatPathSegment_of_plain {key : JsString} (hkey : key ≠ [])
    (hreserved : ∀ u ∈ key, u ∉ reservedUnits) : formatPathSegment (.key key) = key :=
  if_pos ⟨hkey, all_not_reserved_iff.mpr hreserved⟩

/-- `formatPathSegments`. -/
def formatPathSegments (segments : List PathSegment) : JsString :=
  join (unit '/') (segments.map formatPathSegment)

/-! ## What the strict parser accepts -/

/-- A segment that the strict parser can yield: any key, a safe index, and a match whose parts
have no character that ends them. -/
def PathSegment.WellFormed : PathSegment → Prop
  | .key _ => True
  | .index n => n < 2 ^ 53
  | .match name text => name ≠ [] ∧ unit '=' ∉ name ∧ unit ']' ∉ name ∧ unit '/' ∉ name ∧
      unit ']' ∉ text ∧ unit '/' ∉ text

variable {raw text key value after tail : JsString} {segment : PathSegment}
  {segments : List PathSegment} {total start offset fuel : ℕ}

/-- What stands between the brackets of a text. -/
theorem bracketBody_eq_some_iff {body : JsString} :
    bracketBody raw = some body ↔ raw = unit '[' :: (body ++ [unit ']']) := by
  cases raw with
  | nil => simp [bracketBody]
  | cons u rest =>
    simp only [bracketBody, List.cons.injEq]
    constructor
    · intro h
      split_ifs at h with hcond
      obtain ⟨rfl, hlast⟩ := hcond
      obtain ⟨init, rfl⟩ := List.getLast?_eq_some_iff.mp hlast
      obtain rfl : init = body := by simpa using h
      exact ⟨rfl, rfl⟩
    · rintro ⟨rfl, rfl⟩
      rw [if_pos ⟨rfl, by simp⟩, List.dropLast_concat]

/-- The text before the first occurrence of a code unit does not have it. -/
theorem not_mem_takeWhile (c : UInt16) (text : JsString) :
    c ∉ text.takeWhile (· ≠ c) := by
  intro h
  simpa using List.mem_takeWhile_imp h

/-- The parts of a match have no character that ends them. -/
theorem wellFormed_of_matchParts (hslash : unit '/' ∉ raw)
    (h : matchParts raw = some (key, value)) : (PathSegment.match key value).WellFormed := by
  obtain ⟨body, hbody, hparts⟩ := Option.bind_eq_some_iff.mp h
  obtain rfl := bracketBody_eq_some_iff.mp hbody
  simp only at hparts
  split_ifs at hparts with hcond
  obtain ⟨rfl, rfl⟩ := Prod.mk.inj (Option.some.inj hparts)
  obtain ⟨hkey, -, hclose⟩ := hcond
  have hkeyBody : ∀ u ∈ (cut (unit '=') body).1, u ∈ body := fun u hu =>
    (List.takeWhile_sublist _).subset hu
  have hvalueBody : ∀ u ∈ (cut (unit '=') body).2, u ∈ body := fun u hu =>
    (List.dropWhile_sublist _).subset (List.mem_of_mem_drop hu)
  have hbodySlash : unit '/' ∉ body := fun hmem =>
    hslash (List.mem_cons_of_mem _ (List.mem_append_left _ hmem))
  exact ⟨hkey, not_mem_takeWhile _ _, fun hmem => hclose (hkeyBody _ hmem),
    fun hmem => hbodySlash (hkeyBody _ hmem), fun hmem => hclose (hvalueBody _ hmem),
    fun hmem => hbodySlash (hvalueBody _ hmem)⟩

/-- The strict reading of a text without a slash gives a well-formed segment. -/
theorem wellFormed_classifyStrictRawSegment (hslash : unit '/' ∉ raw)
    (h : classifyStrictRawSegment raw offset = .ok segment) : segment.WellFormed := by
  unfold classifyStrictRawSegment at h
  by_cases hbracket : raw.head? = some (unit '[')
  · rw [if_pos hbracket] at h
    cases hdigits : indexDigits raw with
    | some digits =>
      simp only [hdigits] at h
      by_cases hlarge : 2 ^ 53 ≤ digitsValue digits
      · rw [if_pos hlarge] at h
        cases h
      · rw [if_neg hlarge] at h
        obtain rfl := Except.ok.inj h
        exact Nat.lt_of_not_le hlarge
    | none =>
      cases hparts : matchParts raw with
      | none =>
        simp only [hdigits, hparts] at h
        cases h
      | some parts =>
        simp only [hdigits, hparts] at h
        obtain rfl := Except.ok.inj h
        exact wellFormed_of_matchParts hslash hparts
  · rw [if_neg hbracket] at h
    obtain rfl := Except.ok.inj h
    exact True.intro

/-- The strict parser reads well-formed segments. -/
theorem wellFormed_readSegment (h : readSegment total text = .ok (segment, after)) :
    segment.WellFormed := by
  unfold readSegment at h
  cases text with
  | nil =>
    obtain ⟨rfl, -⟩ := Prod.mk.inj (Except.ok.inj h)
    exact True.intro
  | cons u rest =>
    simp only at h
    split_ifs at h with hquote
    · obtain ⟨r, -, hr⟩ := map_eq_ok_iff.mp h
      obtain ⟨rfl, -⟩ := Prod.mk.inj hr
      exact True.intro
    · obtain ⟨s, hs, hr⟩ := map_eq_ok_iff.mp h
      obtain ⟨rfl, -⟩ := Prod.mk.inj hr
      exact wellFormed_classifyStrictRawSegment (not_mem_takeWhile _ _) hs

/-- The strict parser yields well-formed segments. -/
theorem wellFormed_parseSegments (h : parseSegments total fuel text = .ok segments) :
    ∀ s ∈ segments, s.WellFormed := by
  induction fuel generalizing text segments with
  | zero =>
    obtain rfl := Except.ok.inj h
    simp
  | succ fuel ih =>
    cases text with
    | nil =>
      obtain rfl := Except.ok.inj h
      simp [PathSegment.WellFormed]
    | cons u rest =>
      obtain ⟨⟨s, after⟩, hs, h⟩ := bind_eq_ok_iff.mp h
      have hwell := wellFormed_readSegment hs
      simp only at h
      split_ifs at h with hafter
      · obtain rfl := Except.ok.inj h
        simpa using hwell
      · obtain ⟨others, hothers, h⟩ := bind_eq_ok_iff.mp h
        obtain rfl := Except.ok.inj h
        refine List.forall_mem_cons.mpr ⟨?_, ih hothers⟩
        cases htrailing : (cut (unit '/') after).1 with
        | nil => cases s <;> exact hwell
        | cons v trailing => cases s <;> trivial

/-! ## Reading printed segments -/

/-- The text goes on with another segment or ends. -/
def Ends (tail : JsString) : Prop := tail = [] ∨ ∃ rest, tail = unit '/' :: rest

/-- A text without a slash is taken up to where the next segment starts. -/
theorem takeWhile_ends (hslash : unit '/' ∉ raw) (htail : Ends tail) :
    (raw ++ tail).takeWhile (· ≠ unit '/') = raw ∧
      (raw ++ tail).dropWhile (· ≠ unit '/') = tail := by
  have hraw : ∀ u ∈ raw, decide (u ≠ unit '/') = true := fun u hu =>
    decide_eq_true fun heq => hslash (heq ▸ hu)
  rw [List.takeWhile_append_of_pos hraw, List.dropWhile_append_of_pos hraw]
  rcases htail with rfl | ⟨rest, rfl⟩
  · exact ⟨by simp, rfl⟩
  · exact ⟨by simp, by simp⟩

/-- An unquoted segment is read up to where the next one starts. -/
theorem readSegment_plain (hne : raw ≠ []) (hquote : raw.head? ≠ some (unit '"'))
    (hslash : unit '/' ∉ raw) (htail : Ends tail)
    (h : ∀ offset, classifyStrictRawSegment raw offset = .ok segment) :
    readSegment total (raw ++ tail) = .ok (segment, tail) := by
  obtain ⟨htake, hdrop⟩ := takeWhile_ends hslash htail
  cases raw with
  | nil => exact absurd rfl hne
  | cons u rest =>
    have hu : u ≠ unit '"' := fun heq => hquote (congrArg some heq)
    rw [List.cons_append] at htake hdrop ⊢
    rw [readSegment, if_neg hu, htake, hdrop, h]
    rfl

/-- How a code unit is written between quotation marks. -/
def escapePathUnit (u : UInt16) : JsString :=
  if u = unit '\\' then js "\\\\" else if u = unit '"' then js "\\\"" else [u]

/-- A quoted key is written unit by unit. -/
theorem replaceAll_quotes (value : JsString) :
    replaceAll (js "\"") (js "\\\"") (replaceAll (js "\\") (js "\\\\") value) =
      value.flatMap escapePathUnit := by
  rw [show js "\"" = [unit '"'] from rfl, show js "\\" = [unit '\\'] from rfl,
    replaceAll_singleton, replaceAll_singleton, List.flatMap_assoc]
  refine List.flatMap_congr fun u _ => ?_
  unfold escapePathUnit
  by_cases hslash : u = unit '\\'
  · subst hslash
    decide
  · by_cases hquote : u = unit '"'
    · subst hquote
      decide
    · simp [hslash, hquote]

/-- A quoted key is read back. -/
theorem readQuoted_flatMap (value tail : JsString) :
    readQuoted total start (value.flatMap escapePathUnit ++ unit '"' :: tail) =
      .ok (value, tail) := by
  induction value with
  | nil =>
    have hquote : ¬ unit '"' = unit '\\' := by decide
    rw [List.flatMap_nil, List.nil_append, readQuoted.eq_def]
    simp only [if_neg hquote, if_true]
  | cons u value ih =>
    rw [List.flatMap_cons, List.append_assoc, escapePathUnit]
    split_ifs with hslash hquote
    · subst hslash
      rw [show js "\\\\" = [unit '\\', unit '\\'] from rfl]
      simp only [List.cons_append, List.nil_append, readQuoted, if_true, or_true, ih]
      rfl
    · subst hquote
      rw [show js "\\\"" = [unit '\\', unit '"'] from rfl]
      simp only [List.cons_append, List.nil_append, readQuoted, if_true, true_or, ih]
      rfl
    · rw [List.cons_append, List.nil_append, readQuoted.eq_def]
      simp only [if_neg hslash, if_neg hquote, ih]
      rfl

/-- The text of a safe index has digits only, which denote it. -/
theorem indexText_of_lt {n : ℕ} (hn : n < 2 ^ 53) :
    indexText n ≠ [] ∧ (∀ u ∈ indexText n, isDigit u = true) ∧
      digitsValue (indexText n) = n := by
  obtain ⟨x, hx, htext⟩ := toText_numberOf hn
  rw [indexText, hx]
  exact htext

/-- A printed index is read back. -/
theorem classify_index {n : ℕ} (hn : n < 2 ^ 53) (offset : ℕ) :
    classifyStrictRawSegment (unit '[' :: (indexText n ++ [unit ']'])) offset =
      .ok (.index n) := by
  obtain ⟨hne, hdigits, hvalue⟩ := indexText_of_lt hn
  have hindex : indexDigits (unit '[' :: (indexText n ++ [unit ']'])) = some (indexText n) := by
    rw [indexDigits, bracketBody_eq_some_iff.mpr rfl]
    exact Option.filter_some_pos (by simp [hne, List.all_eq_true.mpr hdigits])
  unfold classifyStrictRawSegment
  rw [List.head?_cons, if_pos rfl, hindex]
  simp only [hvalue]
  exact if_neg (by omega)

/-- A printed match is read back. -/
theorem classify_match (h : (PathSegment.match key value).WellFormed) (offset : ℕ) :
    classifyStrictRawSegment (unit '[' :: (key ++ unit '=' :: (value ++ [unit ']']))) offset =
      .ok (.match key value) := by
  obtain ⟨hne, hequals, hclose, -, hclose', -⟩ := h
  have hraw : unit '[' :: (key ++ unit '=' :: (value ++ [unit ']'])) =
      unit '[' :: ((key ++ unit '=' :: value) ++ [unit ']']) := by simp
  have hbody := bracketBody_eq_some_iff.mpr hraw
  have hindex : indexDigits (unit '[' :: (key ++ unit '=' :: (value ++ [unit ']']))) = none := by
    rw [indexDigits, hbody]
    refine Option.filter_some_neg ?_
    have hall : (key ++ unit '=' :: value).all isDigit = false := by
      rw [List.all_eq_false]
      exact ⟨unit '=', by simp, by decide⟩
    simp [hall]
  have hparts : matchParts (unit '[' :: (key ++ unit '=' :: (value ++ [unit ']']))) =
      some (key, value) := by
    rw [matchParts, hbody]
    simp only [Option.bind_eq_bind, Option.bind_some, cut_append hequals]
    exact if_pos ⟨hne, by simp, by simp [hclose, hclose', show unit ']' ≠ unit '=' by decide]⟩
  unfold classifyStrictRawSegment
  rw [List.head?_cons, if_pos rfl, hindex, hparts]

/-- A printed segment is read up to where the next one starts. -/
theorem readSegment_formatPathSegment (h : segment.WellFormed) (htail : Ends tail) :
    readSegment total (formatPathSegment segment ++ tail) = .ok (segment, tail) := by
  have hbracket : ∀ body : JsString,
      (unit '[' :: body).head? ≠ some (unit '"') := by
    intro body
    simp only [List.head?_cons, ne_eq, Option.some.injEq]
    decide
  cases segment with
  | key value =>
    simp only [formatPathSegment]
    split_ifs with hplain
    · obtain ⟨hne, hplain⟩ := hplain
      have hreserved : ∀ c ∈ reservedUnits, c ∉ value := fun c hc hmem =>
        all_not_reserved_iff.mp hplain c hmem hc
      have hhead : ∀ c ∈ reservedUnits, value.head? ≠ some c := fun c hc hhead =>
        hreserved c hc (List.mem_of_mem_head? hhead)
      refine readSegment_plain hne (hhead _ (by decide)) (hreserved _ (by decide)) htail
        fun offset => ?_
      exact if_neg (hhead _ (by decide))
    · rw [replaceAll_quotes, show js "\"" = [unit '"'] from rfl, List.append_assoc,
        List.append_assoc, List.singleton_append, List.singleton_append, readSegment,
        if_pos rfl, readQuoted_flatMap]
      rfl
  | index n =>
    obtain ⟨-, hdigits, -⟩ := indexText_of_lt h
    have hraw : formatPathSegment (.index n) = unit '[' :: (indexText n ++ [unit ']']) := rfl
    rw [hraw]
    refine readSegment_plain (by simp) (hbracket _) ?_ htail (classify_index h)
    have hslash : unit '/' ∉ indexText n := not_mem_of_digits rfl hdigits
    simp [hslash, show unit '/' ≠ unit '[' by decide,
      show unit '/' ≠ unit ']' by decide]
  | «match» key value =>
    have hraw : formatPathSegment (.match key value) =
        unit '[' :: (key ++ unit '=' :: (value ++ [unit ']'])) := by
      simp [formatPathSegment, show js "[" = [unit '['] from rfl,
        show js "=" = [unit '='] from rfl, show js "]" = [unit ']'] from rfl]
    obtain ⟨-, -, -, hkey, -, hvalue⟩ := id h
    rw [hraw]
    refine readSegment_plain (by simp) (hbracket _) ?_ htail (classify_match h)
    simp [hkey, hvalue, show unit '/' ≠ unit '[' by decide,
      show unit '/' ≠ unit ']' by decide, show unit '/' ≠ unit '=' by decide]

/-- A segment is not printed as nothing. -/
theorem formatPathSegment_ne_nil (segment : PathSegment) : formatPathSegment segment ≠ [] := by
  cases segment with
  | key value =>
    simp only [formatPathSegment]
    split_ifs with hplain
    · exact hplain.1
    · exact List.cons_ne_nil _ _
  | _ => exact List.cons_ne_nil _ _

/-- Printed segments are read back one after the other. -/
theorem parseSegments_format (hne : segments ≠ []) (h : ∀ s ∈ segments, s.WellFormed)
    (hfuel : segments.length ≤ fuel) :
    parseSegments total fuel (formatPathSegments segments) = .ok segments := by
  induction segments generalizing fuel with
  | nil => exact absurd rfl hne
  | cons segment rest ih =>
    obtain ⟨hsegment, hrest⟩ := List.forall_mem_cons.mp h
    obtain ⟨fuel, rfl⟩ : ∃ f, fuel = f + 1 := ⟨fuel - 1, by simp at hfuel; omega⟩
    obtain ⟨u, body, hbody⟩ := List.exists_cons_of_ne_nil (formatPathSegment_ne_nil segment)
    cases rest with
    | nil =>
      have hread : readSegment total (formatPathSegment segment ++ []) = .ok (segment, []) :=
        readSegment_formatPathSegment hsegment (.inl rfl)
      rw [formatPathSegments, List.map_singleton, join_singleton]
      rw [List.append_nil, hbody] at hread
      rw [hbody, parseSegments.eq_3 _ _ _ (by simp), hread]
      rfl
    | cons next rest =>
      have hread : readSegment total (formatPathSegment segment ++
          unit '/' :: formatPathSegments (next :: rest)) =
            .ok (segment, unit '/' :: formatPathSegments (next :: rest)) :=
        readSegment_formatPathSegment hsegment (.inr ⟨_, rfl⟩)
      have htext : formatPathSegments (segment :: next :: rest) =
          formatPathSegment segment ++ unit '/' :: formatPathSegments (next :: rest) :=
        join_cons_cons _ _ _ _
      have hlength : (next :: rest).length ≤ fuel := by simpa using hfuel
      have hothers := ih (by simp) hrest hlength
      have hcut : cut (unit '/') (unit '/' :: formatPathSegments (next :: rest)) =
          ([], formatPathSegments (next :: rest)) := cut_append List.not_mem_nil
      rw [htext]
      rw [hbody, List.cons_append] at hread ⊢
      rw [parseSegments.eq_3 _ _ _ (by simp), hread]
      refine bind_eq_ok_iff.mpr ⟨_, rfl, ?_⟩
      simp only [if_neg (List.cons_ne_nil _ _), hcut, hothers]
      rfl

/-- A path has no more segments than its text has characters. -/
theorem length_le_formatPathSegments (segments : List PathSegment) :
    segments.length ≤ (formatPathSegments segments).length := by
  induction segments with
  | nil => exact Nat.zero_le _
  | cons segment rest ih =>
    have hpos := List.length_pos_of_ne_nil (formatPathSegment_ne_nil segment)
    cases rest with
    | nil =>
      rw [formatPathSegments, List.map_singleton, join_singleton]
      exact hpos
    | cons next rest =>
      have htext : formatPathSegments (segment :: next :: rest) =
          formatPathSegment segment ++ unit '/' :: formatPathSegments (next :: rest) :=
        join_cons_cons _ _ _ _
      rw [htext]
      simp only [List.length_cons, List.length_append] at ih ⊢
      omega

/-- What the strict parser accepts has well-formed segments. -/
theorem wellFormed_tryParsePath {path : JsString} (h : tryParsePath path = .ok segments) :
    ∀ s ∈ segments, s.WellFormed := by
  unfold tryParsePath at h
  split_ifs at h with hempty
  · obtain rfl := Except.ok.inj h
    simp
  · exact wellFormed_parseSegments h

/-- Well-formed segments are read back from their printed text. -/
theorem tryParsePath_format (h : ∀ s ∈ segments, s.WellFormed) :
    tryParsePath (formatPathSegments segments) = .ok segments := by
  cases segments with
  | nil => rfl
  | cons segment rest =>
    have hlength := length_le_formatPathSegments (segment :: rest)
    have hne : formatPathSegments (segment :: rest) ≠ [] := by
      intro hnil
      rw [hnil] at hlength
      simp at hlength
    rw [tryParsePath, if_neg hne]
    exact parseSegments_format (List.cons_ne_nil _ _) h (by omega)

/-- Printing undoes parsing: what the strict parser accepts is read back from its printed
text. -/
theorem tryParsePath_formatPathSegments (path : JsString) (segments : List PathSegment)
    (h : tryParsePath path = .ok segments) :
    tryParsePath (formatPathSegments segments) = .ok segments :=
  tryParsePath_format (wellFormed_tryParsePath h)

/-- A quoted slash, and behind it a slash at the end, which stands for an empty key. -/
theorem tryParsePath_formatPathSegments_quoted :
    tryParsePath (formatPathSegments [.key (js "/"), .key []]) =
      .ok [.key (js "/"), .key []] :=
  tryParsePath_formatPathSegments (js "\"/\"/") _ (by rfl)

end T3x.Yops
