import T3x.Js.Agree
import T3x.Transition.Json
import Mathlib.Data.List.TakeWhile

/-!
# What the scanners of the strict parser read

Each scanner reads exactly one token of the grammar: what it reads is a token,
and it reads every token that stands before a text that may follow it.
-/

namespace T3x.Transition

open Js

/-! ## Whitespace and single characters -/

/-- Whitespace in front of a text is skipped. -/
theorem skipWhitespace_append {w : JsString} (hw : IsBlanks w) (rest : JsString) :
    skipWhitespace (w ++ rest) = skipWhitespace rest :=
  List.dropWhile_append_of_pos hw

/-- A text that does not begin with whitespace is left as it is. -/
theorem skipWhitespace_cons {u : UInt16} (hu : isBlank u = false) (rest : JsString) :
    skipWhitespace (u :: rest) = u :: rest := by
  rw [skipWhitespace, List.dropWhile_cons, hu]
  rfl

/-- What is skipped is whitespace. -/
theorem exists_blanks (text : JsString) : ∃ w, IsBlanks w ∧ text = w ++ skipWhitespace text :=
  ⟨text.takeWhile isBlank, fun _ hu => List.mem_takeWhile_imp hu,
    List.takeWhile_append_dropWhile.symm⟩

/-- No whitespace is whitespace. -/
theorem isBlanks_nil : IsBlanks [] := fun _ hu => absurd hu List.not_mem_nil

/-- A character is consumed exactly when the text begins with it. -/
theorem consume_eq_some_iff {character : UInt16} {text rest : JsString} :
    consume character text = some rest ↔ text = character :: rest := by
  cases text with
  | nil => simp [consume]
  | cons u text =>
    rw [consume, List.cons.injEq]
    split_ifs with hu <;> simp [hu]

/-- A character at the front of a text is consumed. -/
@[simp] theorem consume_cons (character : UInt16) (rest : JsString) :
    consume character (character :: rest) = some rest :=
  consume_eq_some_iff.mpr rfl

/-- Another character is not consumed. -/
theorem consume_of_ne {character u : UInt16} (hne : u ≠ character) (rest : JsString) :
    consume character (u :: rest) = none := if_neg hne

/-- What may stand behind a value: nothing, whitespace or a closing or separating
character. -/
def Follows (rest : JsString) : Prop :=
  ∀ u more, rest = u :: more → isBlank u = true ∨ u ∈ [unit ',', unit ']', unit '\x7d']

/-- Nothing may stand behind a value. -/
theorem follows_nil : Follows [] := fun _ _ h => absurd h (by simp)

/-- Closing and separating characters may stand behind a value. -/
theorem follows_cons {u : UInt16} (hu : u ∈ [unit ',', unit ']', unit '\x7d'])
    (rest : JsString) : Follows (u :: rest) := fun _ _ h => .inr ((List.cons.inj h).1 ▸ hu)

/-- Whitespace before what may stand behind a value may stand there too. -/
theorem Follows.append {w rest : JsString} (hw : IsBlanks w) (h : Follows rest) :
    Follows (w ++ rest) := by
  cases w with
  | nil => exact h
  | cons u w =>
    intro v more hv
    exact .inl ((List.cons.inj hv).1 ▸ hw u List.mem_cons_self)

/-! ## Strings -/

variable {size : ℕ} {path text rest body s : JsString}

/-- The letters that the loop takes are those of the escapes. -/
theorem mem_escapeCodes {e : UInt16} :
    e ∈ js "\"\\/bfnrt" ↔ ∃ u, (u, e) ∈ letterEscapes := by
  constructor
  · intro he
    have hall : ((js "\"\\/bfnrt").all fun e => letterEscapes.any fun x => x.2 == e) = true := by
      decide
    obtain ⟨x, hx, hxe⟩ := List.any_eq_true.mp (List.all_eq_true.mp hall e he)
    exact ⟨x.1, by rwa [← beq_iff_eq.mp hxe]⟩
  · rintro ⟨u, hu⟩
    have hall : (letterEscapes.all fun x => (js "\"\\/bfnrt").contains x.2) = true := by decide
    exact List.contains_iff_mem.mp (List.all_eq_true.mp hall _ hu)

/-- What the loop reads is the text between the quotes of a string token. -/
theorem scanString_sound (h : scanString size path text = .ok (body, rest)) :
    text = body ++ unit '"' :: rest ∧ ∃ s, IsStringBody body s := by
  revert body rest
  fun_induction scanString size path text with
  | case1 => simp
  | case2 text =>
    intro body rest h
    obtain ⟨rfl, rfl⟩ := Prod.mk.inj (Except.ok.inj h)
    exact ⟨rfl, [], .nil⟩
  | case3 => simp
  | case4 => simp
  | case5 h₃ h₂ h₁ h₀ rest' hhex _ _ ih =>
    intro body rest h
    obtain ⟨r, hr, hbody⟩ := map_eq_ok_iff.mp h
    obtain ⟨hrest, s, hs⟩ := ih hr
    obtain ⟨rfl, rfl⟩ := Prod.mk.inj hbody
    exact ⟨by rw [hrest]; rfl, _, .hex hhex hs⟩
  | case6 => simp
  | case7 => simp
  | case8 escapeCode rest' _ hmem _ _ ih =>
    intro body rest h
    obtain ⟨r, hr, hbody⟩ := map_eq_ok_iff.mp h
    obtain ⟨hrest, s, hs⟩ := ih hr
    obtain ⟨rfl, rfl⟩ := Prod.mk.inj hbody
    obtain ⟨u, hu⟩ := mem_escapeCodes.mp hmem
    exact ⟨by rw [hrest]; rfl, _, .letter hu hs⟩
  | case9 => simp
  | case10 u rest' hquote hcontrol hslash ih =>
    intro body rest h
    obtain ⟨r, hr, hbody⟩ := map_eq_ok_iff.mp h
    obtain ⟨hrest, s, hs⟩ := ih hr
    obtain ⟨rfl, rfl⟩ := Prod.mk.inj hbody
    exact ⟨by rw [hrest]; rfl, _, .plain (UInt16.not_lt.mp hcontrol) hquote hslash hs⟩

/-- The loop reads the text between the quotes of every string token. -/
theorem scanString_of_isStringBody (h : IsStringBody body s) (rest : JsString) :
    scanString size path (body ++ unit '"' :: rest) = .ok (body, rest) := by
  have hslash : ¬ unit '\\' = unit '"' := by decide
  have hplain : ¬ unit '\\' < 32 := by decide
  induction h with
  | nil =>
    rw [List.nil_append, scanString.eq_def]
    simp only [if_true]
  | plain hcontrol hquote hbackslash hbody ih =>
    rw [List.cons_append, scanString.eq_def]
    simp only [if_neg hquote, if_neg (UInt16.not_lt.mpr hcontrol), if_neg hbackslash, ih,
      Except.map]
  | @letter u e body s he hbody ih =>
    have hletter : ¬ e = unit 'u' := (find_letterEscapes he).1
    have hmem : e ∈ js "\"\\/bfnrt" := mem_escapeCodes.mpr ⟨u, he⟩
    rw [List.cons_append, List.cons_append, scanString.eq_def]
    simp only [if_neg hslash, if_neg hplain, if_true, if_neg hletter, if_pos hmem, ih, Except.map]
  | hex hhex hbody ih =>
    simp only [List.cons_append]
    rw [scanString.eq_def]
    simp only [if_neg hslash, if_neg hplain, if_true, if_pos hhex, ih, Except.map]

/-- The check of the decoded text accepts well-formed strings only, and all of them. -/
theorem assertWellFormedUnicode_eq_ok_iff :
    assertWellFormedUnicode s path = .ok () ↔ isWellFormed s = true := by
  induction s using isWellFormed.induct with
  | case1 => simp [assertWellFormedUnicode, isWellFormed]
  | case2 u =>
    rw [assertWellFormedUnicode, isWellFormed]
    cases isHighSurrogate u <;> cases isLowSurrogate u <;> simp
  | case3 u v s hhigh ih =>
    rw [assertWellFormedUnicode, isWellFormed, if_pos hhigh, if_pos hhigh]
    cases isLowSurrogate v <;> simp [ih]
  | case4 u v s hhigh ih =>
    rw [assertWellFormedUnicode, isWellFormed, if_neg hhigh, if_neg hhigh]
    cases isLowSurrogate u <;> simp [ih]

/-- What `parseString` reads is a string token of a well-formed string. -/
theorem parseString_sound (hhead : text.head? = some (unit '"'))
    (h : parseString size path text = .ok (s, rest)) :
    ∃ token, text = token ++ rest ∧ IsString token s ∧ isWellFormed s = true := by
  obtain ⟨text, rfl⟩ := List.head?_eq_some_iff.mp hhead
  unfold parseString assertDecodedUnicode at h
  rw [List.drop_succ_cons, List.drop_zero] at h
  cases hscan : scanString size path text with
  | error e => simp only [hscan, reduceCtorEq] at h
  | ok r =>
    obtain ⟨body, rest'⟩ := r
    obtain ⟨rfl, s', hs'⟩ := scanString_sound hscan
    simp only [hscan, hs'.unescape_eq] at h
    cases hunicode : assertWellFormedUnicode s' path with
    | error e => simp only [hunicode, reduceCtorEq] at h
    | ok _ =>
      simp only [hunicode, Except.ok.injEq, Prod.mk.injEq] at h
      obtain ⟨rfl, rfl⟩ := h
      exact ⟨unit '"' :: (body ++ [unit '"']), by simp, .intro hs',
        assertWellFormedUnicode_eq_ok_iff.mp hunicode⟩

/-- `parseString` reads every string token of a well-formed string. -/
theorem parseString_of_isString (size : ℕ) (path : JsString) {token : JsString}
    (h : IsString token s) (hs : isWellFormed s = true) (rest : JsString) :
    parseString size path (token ++ rest) = .ok (s, rest) := by
  obtain @⟨body, s, hbody⟩ := h
  have htext : unit '"' :: (body ++ [unit '"']) ++ rest = unit '"' :: (body ++ unit '"' :: rest) := by
    simp
  unfold parseString assertDecodedUnicode
  rw [htext, List.drop_succ_cons, List.drop_zero]
  simp only [scanString_of_isStringBody hbody, hbody.unescape_eq,
    assertWellFormedUnicode_eq_ok_iff.mpr hs]

/-! ## Numbers -/

/-- A text that does not go on with a digit. -/
def NoDigit (text : JsString) : Prop := ∀ u more, text = u :: more → isDigit u = false

/-- What begins with no digit does not go on with one. -/
theorem noDigit_cons {u : UInt16} (hu : isDigit u = false) (more : JsString) :
    NoDigit (u :: more) := fun _ _ h => (List.cons.inj h).1 ▸ hu

/-- Digits before what does not go on with a digit are split off whole. -/
theorem span_digits {digits : JsString} (hdigits : ∀ u ∈ digits, isDigit u = true)
    (hrest : NoDigit rest) : (digits ++ rest).takeWhile isDigit = digits ∧
      (digits ++ rest).dropWhile isDigit = rest := by
  rw [List.takeWhile_append_of_pos hdigits, List.dropWhile_append_of_pos hdigits]
  cases rest with
  | nil => exact ⟨List.append_nil _, rfl⟩
  | cons u more =>
    have hu := hrest u more rfl
    rw [List.takeWhile_cons, List.dropWhile_cons, hu]
    exact ⟨List.append_nil _, rfl⟩

/-- Matched digits are digits. -/
theorem matchDigits_sound {digits : JsString} (h : matchDigits text = some (digits, rest)) :
    text = digits ++ rest ∧ IsDigits digits := by
  unfold matchDigits at h
  cases htake : text.takeWhile isDigit with
  | nil => simp only [htake, reduceCtorEq] at h
  | cons u more =>
    simp only [htake, Option.some.injEq, Prod.mk.injEq] at h
    obtain ⟨rfl, rfl⟩ := h
    refine ⟨by rw [← htake, List.takeWhile_append_dropWhile], List.cons_ne_nil _ _, fun v hv => ?_⟩
    rw [← htake] at hv
    exact List.mem_takeWhile_imp hv

/-- All digits are matched. -/
theorem matchDigits_of_isDigits {digits : JsString} (h : IsDigits digits) (hrest : NoDigit rest) :
    matchDigits (digits ++ rest) = some (digits, rest) := by
  obtain ⟨u, more, rfl⟩ := List.exists_cons_of_ne_nil h.1
  obtain ⟨htake, hdrop⟩ := span_digits h.2 hrest
  unfold matchDigits
  rw [htake, hdrop]

/-- A matched integer part is one. -/
theorem matchWhole_sound {whole : JsString} (h : matchWhole text = some (whole, rest)) :
    text = whole ++ rest ∧ IsInt whole := by
  cases text with
  | nil => simp [matchWhole] at h
  | cons u text =>
    rw [matchWhole] at h
    split_ifs at h with hzero hdigit
    · obtain ⟨rfl, rfl⟩ := Prod.mk.inj (Option.some.inj h)
      rw [hzero]
      exact ⟨rfl, .zero⟩
    · obtain ⟨rfl, rfl⟩ := Prod.mk.inj (Option.some.inj h)
      refine ⟨by rw [List.cons_append, List.takeWhile_append_dropWhile], ?_⟩
      exact .digits hdigit hzero fun v hv => List.mem_takeWhile_imp hv

/-- Every integer part is matched. -/
theorem matchWhole_of_isInt {whole : JsString} (h : IsInt whole) (hrest : NoDigit rest) :
    matchWhole (whole ++ rest) = some (whole, rest) := by
  cases h with
  | zero =>
    rw [List.cons_append, matchWhole, if_pos rfl]
    rfl
  | digits hu hne hs =>
    obtain ⟨htake, hdrop⟩ := span_digits hs hrest
    rw [List.cons_append, matchWhole, if_neg hne, if_pos hu, htake, hdrop]

/-- A matched fraction is one. -/
theorem matchFraction_sound (text : JsString) :
    text = (matchFraction text).1 ++ (matchFraction text).2 ∧
      IsFraction (matchFraction text).1 := by
  fun_cases matchFraction text with
  | case1 => exact ⟨rfl, .missing⟩
  | case2 more digits rest hdigits =>
    obtain ⟨hmore, hd⟩ := matchDigits_sound hdigits
    exact ⟨by rw [hmore]; rfl, .digits hd⟩
  | case3 => exact ⟨rfl, .missing⟩
  | case4 => exact ⟨rfl, .missing⟩

/-- Every fraction is matched. -/
theorem matchFraction_of_isFraction {fraction : JsString} (h : IsFraction fraction)
    (hdigit : NoDigit rest) (hpoint : rest.head? ≠ some (unit '.')) :
    matchFraction (fraction ++ rest) = (fraction, rest) := by
  cases h with
  | missing =>
    rw [List.nil_append]
    cases rest with
    | nil => rfl
    | cons u more =>
      rw [matchFraction, if_neg]
      rintro rfl
      exact hpoint rfl
  | digits hs =>
    rw [List.cons_append, matchFraction, if_pos rfl, matchDigits_of_isDigits hs hdigit]

/-- A matched exponent is one. -/
theorem matchExponent_sound (text : JsString) :
    text = (matchExponent text).1 ++ (matchExponent text).2 ∧
      IsExponent (matchExponent text).1 := by
  fun_cases matchExponent text with
  | case1 => exact ⟨rfl, .missing⟩
  | case2 => exact ⟨rfl, .missing⟩
  | case3 u v more hmark hsign digits rest hdigits =>
    obtain ⟨hmore, hd⟩ := matchDigits_sound hdigits
    exact ⟨by rw [hmore]; rfl, .signed hmark hsign hd⟩
  | case4 => exact ⟨rfl, .missing⟩
  | case5 u v more hmark hsign digits rest hdigits =>
    obtain ⟨hmore, hd⟩ := matchDigits_sound hdigits
    exact ⟨by rw [hmore]; rfl, .unsigned hmark hd⟩
  | case6 => exact ⟨rfl, .missing⟩
  | case7 => exact ⟨rfl, .missing⟩

/-- No sign is a digit. -/
theorem isSign_of_isDigit {u : UInt16} (h : isDigit u = true) : isSign u = false := by
  rw [← Bool.not_eq_true]
  intro hsign
  simp only [isSign, Bool.or_eq_true, beq_iff_eq] at hsign
  rcases hsign with rfl | rfl <;> exact absurd h (by decide)

/-- Every exponent is matched. -/
theorem matchExponent_of_isExponent {exponent : JsString} (h : IsExponent exponent)
    (hdigit : NoDigit rest) (hmark : ∀ u ∈ rest.head?, isExponentMark u = false) :
    matchExponent (exponent ++ rest) = (exponent, rest) := by
  cases h with
  | missing =>
    rw [List.nil_append]
    match rest, hmark with
    | [], _ => rfl
    | [_], _ => rfl
    | u :: v :: more, hmark => rw [matchExponent, hmark u rfl]; rfl
  | @unsigned e s he hs =>
    obtain ⟨v, more, rfl⟩ := List.exists_cons_of_ne_nil hs.1
    have hmatch := matchDigits_of_isDigits hs hdigit
    have hsign := isSign_of_isDigit (hs.2 v List.mem_cons_self)
    simp only [List.cons_append] at hmatch ⊢
    rw [matchExponent, if_pos he, hsign, hmatch]
    rfl
  | signed he hsign hs =>
    rw [List.cons_append, List.cons_append, matchExponent, if_pos he, if_pos hsign,
      matchDigits_of_isDigits hs hdigit]

/-- What may stand behind a value does not go on with a number. -/
theorem Follows.not_number (h : Follows rest) {u : UInt16} {more : JsString}
    (hu : rest = u :: more) : isDigit u = false ∧ u ≠ unit '.' ∧ isExponentMark u = false := by
  rcases h u more hu with hblank | hmem
  · simp only [isBlank, Bool.or_eq_true, beq_iff_eq] at hblank
    rcases hblank with ((rfl | rfl) | rfl) | rfl <;> decide
  · simp only [List.mem_cons, List.not_mem_nil, or_false] at hmem
    rcases hmem with rfl | rfl | rfl <;> decide

/-- What may stand behind a value does not go on with a digit, nor does an exponent in
front of it. -/
theorem noDigit_exponent {exponent : JsString} (h : IsExponent exponent) (hrest : Follows rest) :
    NoDigit (exponent ++ rest) ∧ (exponent ++ rest).head? ≠ some (unit '.') := by
  have hmark : ∀ {e : UInt16}, isExponentMark e = true → isDigit e = false ∧ e ≠ unit '.' := by
    intro e he
    simp only [isExponentMark, Bool.or_eq_true, beq_iff_eq] at he
    rcases he with rfl | rfl <;> decide
  cases h with
  | missing =>
    refine ⟨fun u more hu => (hrest.not_number hu).1, fun hhead => ?_⟩
    obtain ⟨more, hmore⟩ := List.head?_eq_some_iff.mp hhead
    exact (hrest.not_number hmore).2.1 rfl
  | unsigned he hs =>
    exact ⟨noDigit_cons (hmark he).1 _, fun h => (hmark he).2 (Option.some.inj h)⟩
  | signed he hsign hs =>
    exact ⟨noDigit_cons (hmark he).1 _, fun h => (hmark he).2 (Option.some.inj h)⟩

/-- A matched number without sign is one. -/
theorem matchUnsigned_sound {token : JsString} (h : matchUnsigned text = some (token, rest)) :
    text = token ++ rest ∧ IsUnsigned token := by
  unfold matchUnsigned at h
  cases hwhole : matchWhole text with
  | none => simp only [hwhole, reduceCtorEq] at h
  | some r =>
    obtain ⟨whole, more⟩ := r
    obtain ⟨htext, hint⟩ := matchWhole_sound hwhole
    obtain ⟨hmore, hfraction⟩ := matchFraction_sound more
    obtain ⟨hlast, hexponent⟩ := matchExponent_sound (matchFraction more).2
    simp only [hwhole, Option.some.injEq, Prod.mk.injEq] at h
    obtain ⟨rfl, rfl⟩ := h
    refine ⟨?_, .intro hint hfraction hexponent⟩
    calc text = whole ++ more := htext
      _ = whole ++ ((matchFraction more).1 ++ (matchFraction more).2) := by rw [← hmore]
      _ = whole ++ ((matchFraction more).1 ++ ((matchExponent (matchFraction more).2).1 ++
            (matchExponent (matchFraction more).2).2)) := by rw [← hlast]
      _ = _ := by simp only [List.append_assoc]

/-- Every number without sign is matched. -/
theorem matchUnsigned_of_isUnsigned {token : JsString} (h : IsUnsigned token)
    (hrest : Follows rest) : matchUnsigned (token ++ rest) = some (token, rest) := by
  obtain @⟨whole, fraction, exponent, hwhole, hfraction, hexponent⟩ := h
  obtain ⟨hdigit, hpoint⟩ := noDigit_exponent hexponent hrest
  have hfront : NoDigit (fraction ++ (exponent ++ rest)) := by
    cases hfraction with
    | missing => exact hdigit
    | digits hs => exact noDigit_cons (by decide) _
  have hmark : ∀ u ∈ rest.head?, isExponentMark u = false := by
    intro u hu
    obtain ⟨more, hmore⟩ := List.head?_eq_some_iff.mp hu
    exact (hrest.not_number hmore).2.2
  unfold matchUnsigned
  rw [List.append_assoc, List.append_assoc, matchWhole_of_isInt hwhole hfront]
  simp only [matchFraction_of_isFraction hfraction hdigit hpoint,
    matchExponent_of_isExponent hexponent (fun _ _ hu => (hrest.not_number hu).1) hmark,
    List.append_assoc]

/-- The first code unit of a number without sign is a digit. -/
theorem IsUnsigned.lead {token : JsString} (h : IsUnsigned token) :
    ∃ u more, token = u :: more ∧ isDigit u = true := by
  obtain ⟨hwhole, -, -⟩ := h
  cases hwhole with
  | zero => exact ⟨_, _, rfl, by decide⟩
  | digits hu _ _ => exact ⟨_, _, rfl, hu⟩

/-- A matched number is a number token. -/
theorem matchNumber_sound {token : JsString} (h : matchNumber text = some (token, rest)) :
    text = token ++ rest ∧ IsNumber token := by
  cases text with
  | nil => simp [matchNumber] at h
  | cons u text =>
    rw [matchNumber] at h
    split_ifs at h with hminus
    · obtain ⟨r, hr, htoken⟩ := Option.map_eq_some_iff.mp h
      obtain ⟨rfl, rfl⟩ := Prod.mk.inj htoken
      obtain ⟨htext, hunsigned⟩ := matchUnsigned_sound hr
      rw [hminus, htext]
      exact ⟨rfl, .negative hunsigned⟩
    · obtain ⟨htext, hunsigned⟩ := matchUnsigned_sound h
      exact ⟨htext, .positive hunsigned⟩

/-- Every number token is matched. -/
theorem matchNumber_of_isNumber {token : JsString} (h : IsNumber token) (hrest : Follows rest) :
    matchNumber (token ++ rest) = some (token, rest) := by
  cases h with
  | positive hs =>
    obtain ⟨u, more, htoken, hu⟩ := IsUnsigned.lead hs
    have hmatch := matchUnsigned_of_isUnsigned hs hrest
    rw [htoken, List.cons_append] at hmatch ⊢
    rw [matchNumber, if_neg, hmatch]
    rintro rfl
    exact absurd hu (by decide)
  | negative hs =>
    rw [List.cons_append, matchNumber, if_pos rfl, matchUnsigned_of_isUnsigned hs hrest]
    rfl

/-- What `parseNumber` reads is a number token that does not overflow. -/
theorem parseNumber_sound {value : JsNumber} (h : parseNumber size path text = .ok (value, rest)) :
    ∃ token, text = token ++ rest ∧ IsNumber token ∧ numberOf token = some value := by
  unfold parseNumber at h
  cases hmatch : matchNumber text with
  | none => simp only [hmatch, reduceCtorEq] at h
  | some r =>
    obtain ⟨token, rest'⟩ := r
    cases hnumber : numberOf token with
    | none => simp only [hmatch, hnumber, reduceCtorEq] at h
    | some x =>
      simp only [hmatch, hnumber, Except.ok.injEq, Prod.mk.injEq] at h
      obtain ⟨rfl, rfl⟩ := h
      obtain ⟨htext, hnum⟩ := matchNumber_sound hmatch
      exact ⟨token, htext, hnum, hnumber⟩

/-- `parseNumber` reads every number token that does not overflow. -/
theorem parseNumber_of_isNumber {token : JsString} {value : JsNumber} (h : IsNumber token)
    (hvalue : numberOf token = some value) (hrest : Follows rest) :
    parseNumber size path (token ++ rest) = .ok (value, rest) := by
  unfold parseNumber
  simp only [matchNumber_of_isNumber h hrest, hvalue]

/-! ## Literals -/

/-- What `parseLiteral` reads is the literal. -/
theorem parseLiteral_sound {literal : JsString} {value v : JsValue}
    (h : parseLiteral size literal value path text = .ok (v, rest)) :
    text = literal ++ rest ∧ v = value := by
  unfold parseLiteral at h
  split_ifs at h with hliteral
  obtain ⟨rfl, rfl⟩ := Prod.mk.inj (Except.ok.inj h)
  refine ⟨?_, rfl⟩
  conv_lhs => rw [← List.take_append_drop literal.length text, not_not.mp hliteral]

/-- `parseLiteral` reads the literal. -/
theorem parseLiteral_append (size : ℕ) (path literal : JsString) (value : JsValue) (rest : JsString) :
    parseLiteral size literal value path (literal ++ rest) = .ok (value, rest) := by
  unfold parseLiteral
  rw [List.take_left, List.drop_left, if_neg (not_not.mpr rfl)]

end T3x.Transition
