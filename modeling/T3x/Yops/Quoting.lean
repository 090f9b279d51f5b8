import T3x.Js.Token
import T3x.Yops.Printing

/-!
# Keys quoted as JSON strings

A key is often put into a path as `JSON.stringify` writes it. The path parser knows
only the escapes of the quotation mark and of the backslash; JSON text also escapes
control characters and surrogates that stand alone. So such a key is read back exactly
when it has neither; otherwise the path is malformed.
-/

namespace T3x.Yops

open Js

variable {total start offset fuel : ℕ} {u : UInt16} {key tail : JsString}

/-! ## Reading one code unit -/

/-- A code unit that is neither a quotation mark nor a backslash is read as it stands. -/
theorem readQuoted_plain (hslash : u ≠ unit '\\') (hquote : u ≠ unit '"') (text : JsString) :
    readQuoted total start (u :: text) =
      (readQuoted total start text).map fun r => (u :: r.1, r.2) := by
  rw [readQuoted.eq_def]
  simp only [if_neg hslash, if_neg hquote]

/-- The closing quotation mark ends the key. -/
theorem readQuoted_close (text : JsString) :
    readQuoted total start (unit '"' :: text) = .ok ([], text) := by
  have hne : ¬ unit '"' = unit '\\' := by decide
  rw [readQuoted.eq_def]
  simp only [if_neg hne, if_true]

/-- A code unit is read back from its printed text. -/
theorem readQuoted_escapePathUnit (u : UInt16) (text : JsString) :
    readQuoted total start (escapePathUnit u ++ text) =
      (readQuoted total start text).map fun r => (u :: r.1, r.2) := by
  unfold escapePathUnit
  split_ifs with hslash hquote
  · subst hslash
    rw [show js "\\\\" = [unit '\\', unit '\\'] from rfl]
    simp only [List.cons_append, List.nil_append, readQuoted, if_true, or_true]
  · subst hquote
    rw [show js "\\\"" = [unit '\\', unit '"'] from rfl]
    simp only [List.cons_append, List.nil_append, readQuoted, if_true, true_or]
  · exact readQuoted_plain hslash hquote text

/-- No other escape is known. -/
theorem readQuoted_escape (hslash : u ≠ unit '\\') (hquote : u ≠ unit '"') (text : JsString) :
    ∃ e, readQuoted total start (unit '\\' :: u :: text) = .error e := by
  rw [readQuoted.eq_def]
  simp only [if_true, if_neg (not_or.mpr ⟨hquote, hslash⟩)]
  exact ⟨_, rfl⟩

/-! ## The escapes of JSON text -/

/-- JSON text writes a code unit that is no control character and no surrogate as a path
does. -/
theorem escapeUnit_eq_escapePathUnit (hlow : 32 ≤ u) (hhigh : isHighSurrogate u = false)
    (hsecond : isLowSurrogate u = false) : escapeUnit u = escapePathUnit u := by
  unfold escapeUnit escapePathUnit
  cases hfind : shortEscapes.find? (fun e => e.1 == u) with
  | some e =>
    obtain rfl : e.1 = u := by simpa using List.find?_some hfind
    have hmem := List.mem_of_find?_eq_some hfind
    have hall : ∀ e ∈ shortEscapes, 32 ≤ e.1 → [unit '\\', e.2] =
        if e.1 = unit '\\' then js "\\\\" else if e.1 = unit '"' then js "\\\"" else [e.1] :=
      forall_mem_of_all (by decide)
    exact hall e hmem hlow
  | none =>
    have hnot : ∀ e ∈ shortEscapes, e.1 ≠ u := by simpa using hfind
    have hslash : u ≠ unit '\\' := fun h => hnot (unit '\\', unit '\\') (by decide) h.symm
    have hquote : u ≠ unit '"' := fun h => hnot (unit '"', unit '"') (by decide) h.symm
    have hctrl : ¬ u < 32 := UInt16.not_lt.mpr hlow
    simp [hslash, hquote, hctrl, hhigh, hsecond]

/-- JSON text escapes a control character or a surrogate, and not by itself. -/
theorem escapeUnit_escape
    (h : u < 32 ∨ isHighSurrogate u = true ∨ isLowSurrogate u = true) :
    ∃ letter rest, escapeUnit u = unit '\\' :: letter :: rest ∧ letter ≠ unit '\\' ∧
      letter ≠ unit '"' := by
  unfold escapeUnit
  cases hfind : shortEscapes.find? (fun e => e.1 == u) with
  | some e =>
    obtain rfl : e.1 = u := by simpa using List.find?_some hfind
    have hmem := List.mem_of_find?_eq_some hfind
    have hall : ∀ e ∈ shortEscapes,
        (e.1 < 32 ∨ isHighSurrogate e.1 = true ∨ isLowSurrogate e.1 = true) →
          e.2 ≠ unit '\\' ∧ e.2 ≠ unit '"' := forall_mem_of_all (by decide)
    exact ⟨e.2, [], rfl, hall e hmem h⟩
  | none =>
    have hcond : (u < 32 || isHighSurrogate u || isLowSurrogate u) = true := by
      simpa [or_assoc] using h
    simp only [hcond, if_true]
    exact ⟨_, _, rfl, by decide, by decide⟩

/-! ## The key as a whole -/

/-- A key that the path parser reads back from its JSON text: no control character and no
surrogate that stands alone. -/
def isReadable (key : JsString) : Bool := isWellFormed key && key.all fun u => decide (32 ≤ u)

/-- A readable key is written in JSON text as it is in a path. -/
theorem quoteBody_of_isReadable (h : isReadable key = true) :
    quoteBody key = key.flatMap escapePathUnit := by
  unfold isReadable at h
  induction key using quoteBody.induct with
  | case1 => rfl
  | case2 u =>
    simp only [isWellFormed, List.all_cons, List.all_nil, Bool.and_true, Bool.and_eq_true,
      Bool.not_eq_true', decide_eq_true_eq] at h
    obtain ⟨⟨hhigh, hsecond⟩, hlow⟩ := h
    rw [quoteBody, escapeUnit_eq_escapePathUnit hlow hhigh hsecond, List.flatMap_singleton]
  | case3 u v s hpair ih =>
    obtain ⟨hu, hv⟩ := Bool.and_eq_true_iff.mp hpair
    simp only [isWellFormed, hu, hv, if_true, List.all_cons, Bool.true_and,
      Bool.and_eq_true, decide_eq_true_eq] at h ih
    have hplain : ∀ w, isHighSurrogate w = true ∨ isLowSurrogate w = true →
        escapePathUnit w = [w] := fun w hw => by
      simp [escapePathUnit, (surrogate_ne hw).1, (surrogate_ne hw).2]
    rw [quoteBody, if_pos hpair, ih ⟨h.1, h.2.2.2⟩, List.flatMap_cons, List.flatMap_cons,
      hplain u (.inl hu), hplain v (.inr hv)]
    rfl
  | case4 u v s hpair ih =>
    simp only [isWellFormed, List.all_cons, Bool.and_eq_true, decide_eq_true_eq] at h ih
    obtain ⟨hwell, hlow, hrest⟩ := h
    have hhigh : isHighSurrogate u = false := by
      by_contra hu
      rw [if_pos (Bool.eq_true_of_not_eq_false hu)] at hwell
      exact hpair (by simp [Bool.eq_true_of_not_eq_false hu, (Bool.and_eq_true_iff.mp hwell).1])
    simp only [hhigh, Bool.false_eq_true, if_false, Bool.and_eq_true, Bool.not_eq_true'] at hwell
    rw [quoteBody, if_neg hpair, ih ⟨hwell.2, hrest⟩,
      escapeUnit_eq_escapePathUnit hlow hhigh hwell.1]
    exact List.flatMap_cons.symm

/-- A code unit as JSON text writes it is read back, or the text is malformed whatever comes
next. -/
theorem readQuoted_escapeUnit (u : UInt16) (text : JsString) :
    (∃ e, readQuoted total start (escapeUnit u ++ text) = .error e) ∨
      (32 ≤ u ∧ isHighSurrogate u = false ∧ isLowSurrogate u = false) ∧
        readQuoted total start (escapeUnit u ++ text) =
          (readQuoted total start text).map fun r => (u :: r.1, r.2) := by
  by_cases h : u < 32 ∨ isHighSurrogate u = true ∨ isLowSurrogate u = true
  · obtain ⟨letter, rest, heq, hslash, hquote⟩ := escapeUnit_escape h
    rw [heq]
    exact .inl (readQuoted_escape hslash hquote (rest ++ text))
  · rw [not_or, not_or, UInt16.not_lt, Bool.not_eq_true, Bool.not_eq_true] at h
    obtain ⟨hlow, hhigh, hsecond⟩ := h
    rw [escapeUnit_eq_escapePathUnit hlow hhigh hsecond]
    exact .inr ⟨⟨hlow, hhigh, hsecond⟩, readQuoted_escapePathUnit u text⟩

/-- The JSON text of a key that is not readable is malformed as a quoted segment. -/
theorem readQuoted_of_not_isReadable (h : isReadable key = false) (text : JsString) :
    ∃ e, readQuoted total start (quoteBody key ++ text) = .error e := by
  unfold isReadable at h
  induction key using quoteBody.induct with
  | case1 => cases h
  | case2 u =>
    rw [quoteBody]
    have hunit : (∃ e, readQuoted total start (escapeUnit u ++ text) = .error e) ∨ _ :=
      readQuoted_escapeUnit u text
    obtain he | ⟨⟨hlow, hhigh, hsecond⟩, -⟩ := hunit
    · exact he
    · simp [isWellFormed, hhigh, hsecond, hlow] at h
  | case3 u v s hpair ih =>
    obtain ⟨hu, hv⟩ := Bool.and_eq_true_iff.mp hpair
    have hrest : (isWellFormed s && s.all fun u => decide (32 ≤ u)) = false := by
      simpa [isWellFormed, hu, hv, le_of_surrogate (.inl hu), le_of_surrogate (.inr hv)] using h
    obtain ⟨e, he⟩ := ih hrest
    rw [quoteBody, if_pos hpair, List.cons_append, List.cons_append,
      readQuoted_plain (surrogate_ne (.inl hu)).2 (surrogate_ne (.inl hu)).1,
      readQuoted_plain (surrogate_ne (.inr hv)).2 (surrogate_ne (.inr hv)).1, he]
    exact ⟨e, rfl⟩
  | case4 u v s hpair ih =>
    rw [quoteBody, if_neg hpair, List.append_assoc]
    have hunit : (∃ e, readQuoted total start
        (escapeUnit u ++ (quoteBody (v :: s) ++ text)) = .error e) ∨ _ :=
      readQuoted_escapeUnit u (quoteBody (v :: s) ++ text)
    obtain he | ⟨⟨hlow, hhigh, hsecond⟩, heq⟩ := hunit
    · exact he
    · have hrest : (isWellFormed (v :: s) && (v :: s).all fun u => decide (32 ≤ u)) = false := by
        simpa only [isWellFormed, List.all_cons, hhigh, hsecond, hlow, Bool.false_eq_true,
          if_false, Bool.not_false, Bool.true_and, decide_true] using h
      obtain ⟨e, he⟩ := ih hrest
      rw [heq, he]
      exact ⟨e, rfl⟩

/-- A readable key is read back from its JSON text. -/
theorem readSegment_quote (h : isReadable key = true) (tail : JsString) :
    readSegment total (quote key ++ tail) = .ok (.key key, tail) := by
  rw [quote, quoteBody_of_isReadable h, List.cons_append, List.append_assoc,
    List.singleton_append, readSegment, if_pos rfl, readQuoted_flatMap]
  rfl

/-- The JSON text of a key that is not readable is no segment. -/
theorem readSegment_quote_error (h : isReadable key = false) (tail : JsString) :
    ∃ e, readSegment total (quote key ++ tail) = .error e := by
  rw [quote, List.cons_append, List.append_assoc, readSegment, if_pos rfl]
  obtain ⟨e, he⟩ : ∃ e, readQuoted total
      (total - (unit '"' :: (quoteBody key ++ ([unit '"'] ++ tail))).length)
      (quoteBody key ++ ([unit '"'] ++ tail)) = .error e :=
    readQuoted_of_not_isReadable h ([unit '"'] ++ tail)
  rw [he]
  exact ⟨e, rfl⟩

/-- The JSON text of a readable key is a path of that key. -/
theorem tryParsePath_quote (h : isReadable key = true) :
    tryParsePath (quote key) = .ok [.key key] := by
  have hread : readSegment (quote key).length (quote key ++ []) = .ok (.key key, []) :=
    readSegment_quote h []
  obtain ⟨text, htext⟩ : ∃ text, quote key = unit '"' :: text := ⟨_, rfl⟩
  rw [List.append_nil, htext] at hread
  rw [htext, tryParsePath, if_neg (List.cons_ne_nil _ _), parseSegments.eq_3 _ _ _ (by simp),
    hread]
  rfl

/-- The JSON text of another key is malformed. -/
theorem tryParsePath_quote_error (h : isReadable key = false) :
    ∃ e, tryParsePath (quote key) = .error e := by
  obtain ⟨e, he⟩ : ∃ e, readSegment (quote key).length (quote key ++ []) = .error e :=
    readSegment_quote_error h []
  obtain ⟨text, htext⟩ : ∃ text, quote key = unit '"' :: text := ⟨_, rfl⟩
  rw [List.append_nil, htext] at he
  rw [htext, tryParsePath, if_neg (List.cons_ne_nil _ _), parseSegments.eq_3 _ _ _ (by simp), he]
  exact ⟨e, rfl⟩

/-- The JSON text of a readable key is parsed as that key. -/
theorem parsePath_quote_of_isReadable (h : isReadable key = true) :
    parsePath (quote key) = [.key key] := by
  rw [parsePath, tryParsePath_quote h]

/-- The JSON text of another key falls apart at its slashes. -/
theorem parsePath_quote_of_not_isReadable (h : isReadable key = false) :
    parsePath (quote key) = (split (unit '/') (quote key)).map classifyRawSegment := by
  obtain ⟨e, he⟩ := tryParsePath_quote_error h
  rw [parsePath, he]

end T3x.Yops
