import T3x.Js.Json

/-!
# The tokens of JSON texts

The grammar of number and string tokens, and the values that `Number` and
`JSON.parse` give them. What the language prints for a number or a string is a
token that reads back as it, a negative zero as zero.
-/

namespace Js

/-! ## Numbers -/

/-- One or more digits. -/
def IsDigits (s : JsString) : Prop := s ≠ [] ∧ ∀ u ∈ s, isDigit u = true

/-- The integer part of a number: `0`, or digits without a leading zero. -/
inductive IsInt : JsString → Prop
  | zero : IsInt [unit '0']
  | digits {u : UInt16} {s : JsString} (hu : isDigit u = true) (hne : u ≠ unit '0')
      (hs : ∀ v ∈ s, isDigit v = true) : IsInt (u :: s)

/-- The fraction of a number, which may be missing. -/
inductive IsFraction : JsString → Prop
  | missing : IsFraction []
  | digits {s : JsString} (hs : IsDigits s) : IsFraction (unit '.' :: s)

/-- Whether a code unit marks an exponent. -/
def isExponentMark (u : UInt16) : Bool := u == unit 'e' || u == unit 'E'

/-- Whether a code unit is a sign. -/
def isSign (u : UInt16) : Bool := u == unit '+' || u == unit '-'

/-- The exponent of a number, which may be missing. -/
inductive IsExponent : JsString → Prop
  | missing : IsExponent []
  | unsigned {e : UInt16} {s : JsString} (he : isExponentMark e = true) (hs : IsDigits s) :
      IsExponent (e :: s)
  | signed {e sign : UInt16} {s : JsString} (he : isExponentMark e = true)
      (hsign : isSign sign = true) (hs : IsDigits s) : IsExponent (e :: sign :: s)

/-- A number without its minus sign. -/
inductive IsUnsigned : JsString → Prop
  | intro {whole fraction exponent : JsString} (hwhole : IsInt whole)
      (hfraction : IsFraction fraction) (hexponent : IsExponent exponent) :
      IsUnsigned (whole ++ fraction ++ exponent)

/-- A number token. -/
inductive IsNumber : JsString → Prop
  | positive {s : JsString} (hs : IsUnsigned s) : IsNumber s
  | negative {s : JsString} (hs : IsUnsigned s) : IsNumber (unit '-' :: s)

/-- The text before the first exponent mark and the text after it. -/
def cutExponent (s : JsString) : JsString × JsString :=
  (s.takeWhile fun u => !isExponentMark u, (s.dropWhile fun u => !isExponentMark u).drop 1)

/-- The exponent that its text denotes. -/
def exponentValue : JsString → ℤ
  | [] => 0
  | u :: s =>
    if u = unit '-' then -(digitsValue s : ℤ)
    else if u = unit '+' then digitsValue s
    else digitsValue (u :: s)

/-- The rational that an unsigned number token denotes. -/
def decimalOf (s : JsString) : ℚ :=
  let (mantissa, exponent) := cutExponent s
  let (whole, fraction) := cut (unit '.') mantissa
  digitsValue (whole ++ fraction) * (10 : ℚ) ^ (exponentValue exponent - fraction.length)

/-- `Number(s)` for a number token: the nearest double, `none` standing for an
infinity. -/
def numberOf (s : JsString) : Option JsNumber :=
  let neg := s.head? == some (unit '-')
  match roundToDouble (decimalOf (if neg then s.drop 1 else s)) with
  | none => none
  | some (mant, exp) => if h : IsDouble mant exp then some ⟨neg, mant, exp, h⟩ else none

/-- A natural number is at most a rational only if the rational rounds to no less. -/
theorem le_roundHalfEven {n : ℕ} {q : ℚ} (h : (n : ℚ) ≤ q) : n ≤ roundHalfEven q := by
  have hfloor : n ≤ ⌊q⌋₊ := Nat.le_floor h
  unfold roundHalfEven
  simp only
  split_ifs <;> omega

/-- A rational rounds to a double in normal form. -/
theorem isDouble_of_roundToDouble {q : ℚ} {mant : ℕ} {exp : ℤ}
    (h : roundToDouble q = some (mant, exp)) : IsDouble mant exp := by
  unfold roundToDouble at h
  by_cases hq : q ≤ 0
  · rw [if_pos hq] at h
    obtain ⟨rfl, rfl⟩ := Prod.mk.inj (Option.some.inj h)
    decide
  · rw [if_neg hq] at h
    simp only at h
    split_ifs at h with hsmall hexp hexp
    · obtain ⟨rfl, rfl⟩ := Prod.mk.inj (Option.some.inj h)
      refine ⟨hsmall, le_max_left _ _, hexp, ?_⟩
      rcases le_or_gt (binade q - 52) (-1074) with hlow | hlow
      · exact .inr (max_eq_left hlow)
      · left
        rw [max_eq_right hlow.le]
        apply le_roundHalfEven
        rw [le_div_iff₀ (by positivity)]
        have hbinade := (binade_spec (not_le.mp hq)).1
        calc ((2 ^ 52 : ℕ) : ℚ) * (2 : ℚ) ^ (binade q - 52) = (2 : ℚ) ^ binade q := by
              rw [zpow_sub₀ (by norm_num)]
              push_cast
              rw [mul_div_assoc', mul_comm, mul_div_assoc]
              norm_num
          _ ≤ q := hbinade
    · obtain ⟨rfl, rfl⟩ := Prod.mk.inj (Option.some.inj h)
      refine ⟨by norm_num, ?_, hexp, .inl le_rfl⟩
      have hmax := le_max_left (-1074) (binade q - 52)
      omega

/-- A number token is an infinity exactly when its decimal is past the largest
double. -/
theorem numberOf_eq_none_iff {s : JsString} : numberOf s = none ↔
    roundToDouble (decimalOf (if s.head? == some (unit '-') then s.drop 1 else s)) = none := by
  unfold numberOf
  cases h : roundToDouble
    (decimalOf (if s.head? == some (unit '-') then s.drop 1 else s)) with
  | none => simp only [h]
  | some d =>
    obtain ⟨mant, exp⟩ := d
    simp only [h, dif_pos (isDouble_of_roundToDouble h), reduceCtorEq]

/-! ## Printed numbers are tokens -/

/-- A printed natural number other than zero has no leading zero. -/
theorem decimalDigits_lead {fuel n : ℕ} (h : n ≤ fuel) (hn : n ≠ 0) :
    ∃ u s, decimalDigits fuel n = u :: s ∧ u ≠ unit '0' := by
  induction fuel generalizing n with
  | zero => omega
  | succ fuel ih =>
    unfold decimalDigits
    split_ifs with hlt
    · refine ⟨_, _, rfl, ?_⟩
      interval_cases n <;> first | omega | decide
    · obtain ⟨u, s, hs, hu⟩ := ih (n := n / 10) (by omega) (by omega)
      exact ⟨u, s ++ [48 + (n % 10).toUInt16], by rw [hs, List.cons_append], hu⟩

/-- Digits without a leading zero are an integer part, also with more digits behind. -/
theorem isInt_append {ds more : JsString} (hne : ∃ u s, ds = u :: s ∧ u ≠ unit '0')
    (hds : ∀ u ∈ ds, isDigit u = true) (hmore : ∀ u ∈ more, isDigit u = true) :
    IsInt (ds ++ more) := by
  obtain ⟨u, s, rfl, hu⟩ := hne
  refine .digits (hds u List.mem_cons_self) hu fun v hv => ?_
  rcases List.mem_append.mp hv with hv | hv
  · exact hds v (List.mem_cons_of_mem _ hv)
  · exact hmore v hv

/-- A printed exponent is an exponent. -/
theorem isExponent_exponentText (n : ℤ) : IsExponent (unit 'e' :: exponentText n) := by
  refine .signed (by decide) ?_ ⟨decimalDigits_ne_nil _ _, fun _ => isDigit_of_mem_natToString⟩
  split_ifs <;> decide

/-- A printed decimal other than zero is an unsigned number. -/
theorem isUnsigned_format {d : Decimal} (hd : d.digits ≠ 0) : IsUnsigned d.format := by
  have hds : ∀ u ∈ natToString d.digits, isDigit u = true := fun _ => isDigit_of_mem_natToString
  have hlead : ∃ u s, natToString d.digits = u :: s ∧ u ≠ unit '0' := decimalDigits_lead le_rfl hd
  unfold Decimal.format
  generalize natToString d.digits = ds at hds hlead
  have hzeros : ∀ n, ∀ u ∈ List.replicate n (unit '0'), isDigit u = true := by
    intro n u hu
    rw [List.eq_of_mem_replicate hu]
    rfl
  have htake : ∀ m, 0 < m → ∃ u s, ds.take m = u :: s ∧ u ≠ unit '0' := by
    intro m hm
    obtain ⟨u, s, rfl, hu⟩ := hlead
    obtain ⟨k, rfl⟩ : ∃ k, m = k + 1 := ⟨m - 1, by omega⟩
    exact ⟨u, s.take k, rfl, hu⟩
  have hwhole : ∀ m, 0 < m → IsInt (ds.take m) := fun m hm => by
    have h : IsInt (ds.take m ++ []) :=
      isInt_append (htake m hm) (fun u hu => hds u (List.mem_of_mem_take hu)) (by simp)
    rwa [List.append_nil] at h
  have hdrop : ∀ m, m < ds.length → IsFraction (unit '.' :: ds.drop m) := fun m hm =>
    .digits ⟨by simpa using hm, fun u hu => hds u (List.mem_of_mem_drop hu)⟩
  have hpos : 0 < ds.length := by
    obtain ⟨u, s, rfl, -⟩ := hlead
    exact Nat.succ_pos _
  simp only
  split_ifs with h1 h2 h3 h4
  · have h := IsUnsigned.intro (isInt_append hlead hds (hzeros (d.exp + ds.length - ds.length).toNat))
      .missing .missing
    rwa [List.append_nil, List.append_nil] at h
  · have h := IsUnsigned.intro (hwhole (d.exp + ds.length).toNat (by omega))
      (hdrop (d.exp + ds.length).toNat (by omega)) .missing
    rwa [List.append_nil] at h
  · have hfraction : IsFraction
        (unit '.' :: (List.replicate (-(d.exp + ds.length)).toNat (unit '0') ++ ds)) := by
      refine .digits ⟨by simp [List.ne_nil_of_length_pos hpos], fun u hu => ?_⟩
      rcases List.mem_append.mp hu with hu | hu
      · exact hzeros _ u hu
      · exact hds u hu
    have h := IsUnsigned.intro .zero hfraction .missing
    rwa [List.append_nil] at h
  · have hint : IsInt (ds ++ []) := isInt_append hlead hds (by simp)
    have h := IsUnsigned.intro hint .missing (isExponent_exponentText (d.exp + ds.length))
    rwa [List.append_nil, List.append_nil] at h
  · have h := IsUnsigned.intro (hwhole 1 (by omega)) (hdrop 1 (by omega))
      (isExponent_exponentText (d.exp + ds.length))
    rwa [List.append_assoc, List.cons_append] at h

/-- Dropping trailing zeros leaves some digit. -/
theorem digits_strip_ne_zero {fuel : ℕ} {d : Decimal} (h : d.digits ≠ 0) :
    (d.strip fuel).digits ≠ 0 := by
  induction fuel generalizing d with
  | zero => exact h
  | succ fuel ih =>
    unfold Decimal.strip
    split_ifs with hzero
    · apply ih
      dsimp only
      omega
    · exact h

/-- The shortest decimal of a number other than zero is not zero. -/
theorem digits_shortestDecimal_ne_zero {x : JsNumber} (hx : x.mant ≠ 0) :
    (shortestDecimal x).digits ≠ 0 := by
  intro h
  have hround := roundToDouble_shortestDecimal x
  rw [Decimal.value, h, Nat.cast_zero, zero_mul, roundToDouble, if_pos le_rfl] at hround
  exact hx (Prod.mk.inj (Option.some.inj hround)).1.symm

/-- The text of a number is a number token. -/
theorem isNumber_toText (x : JsNumber) : IsNumber x.toText := by
  unfold JsNumber.toText
  split_ifs with hzero hneg
  · exact .positive (.intro .zero .missing .missing)
  · exact .negative (isUnsigned_format (digits_strip_ne_zero (digits_shortestDecimal_ne_zero hzero)))
  · exact .positive (isUnsigned_format (digits_strip_ne_zero (digits_shortestDecimal_ne_zero hzero)))

/-! ## Printed numbers read back -/

/-- Without a capital mark the exponent is cut at the small one. -/
theorem cutExponent_eq_cut {s : JsString} (h : unit 'E' ∉ s) : cutExponent s = cut (unit 'e') s := by
  have hmark : ∀ u ∈ s, (!isExponentMark u) = decide (u ≠ unit 'e') := by
    intro u hu
    have hne : u ≠ unit 'E' := fun heq => h (heq ▸ hu)
    by_cases he : u = unit 'e' <;> simp [isExponentMark, he, hne]
  unfold cutExponent cut
  induction s with
  | nil => rfl
  | cons u s ih =>
    have hrest := Prod.mk.inj (ih (fun hmem => h (List.mem_cons_of_mem _ hmem)) fun v hv =>
      hmark v (List.mem_cons_of_mem _ hv))
    rw [List.takeWhile_cons, List.dropWhile_cons, List.takeWhile_cons, List.dropWhile_cons,
      hmark u List.mem_cons_self]
    split_ifs
    · exact Prod.ext (congrArg (u :: ·) hrest.1) hrest.2
    · rfl

/-- The printed exponent denotes what the printer's reader says. -/
theorem exponentValue_exponentText (n : ℤ) :
    exponentValue (exponentText n) = readExponent (exponentText n) := by
  have hne : ¬ unit '+' = unit '-' := by decide
  unfold exponentText
  split_ifs with h
  · simp only [exponentValue, readExponent, if_neg hne, if_true]
  · simp only [exponentValue, readExponent, if_true]

/-- What a printed decimal has behind its exponent mark. -/
theorem cut_format (d : Decimal) : (cut (unit 'e') d.format).2 = [] ∨
    ∃ n, (cut (unit 'e') d.format).2 = exponentText n := by
  have hds : unit 'e' ∉ natToString d.digits := not_mem_of_digits rfl fun _ =>
    isDigit_of_mem_natToString
  have hzeros : ∀ n, unit 'e' ∉ List.replicate n (unit '0') := fun n h =>
    absurd (List.eq_of_mem_replicate h) (by decide)
  have htake : ∀ n, unit 'e' ∉ (natToString d.digits).take n := fun n h =>
    hds (List.mem_of_mem_take h)
  have hdrop : ∀ n, unit 'e' ∉ (natToString d.digits).drop n := fun n h =>
    hds (List.mem_of_mem_drop h)
  have hpoint : unit 'e' ≠ unit '.' := by decide
  have hzero : unit 'e' ≠ unit '0' := by decide
  unfold Decimal.format
  simp only
  split_ifs
  · rw [cut_of_not_mem (by simp only [List.mem_append, hds, hzeros, or_self, not_false_eq_true])]
    exact .inl rfl
  · rw [cut_of_not_mem (by
      simp only [List.mem_append, List.mem_cons, htake, hdrop, hpoint, or_self,
        not_false_eq_true])]
    exact .inl rfl
  · rw [cut_of_not_mem (by
      simp only [List.mem_append, List.mem_cons, hds, hzeros, hpoint, hzero, or_self,
        not_false_eq_true])]
    exact .inl rfl
  · rw [cut_append hds]
    exact .inr ⟨_, rfl⟩
  · have hassoc : ∀ a b c : JsString, a ++ unit '.' :: (b ++ unit 'e' :: c) =
        (a ++ unit '.' :: b) ++ unit 'e' :: c := by
      intro a b c
      simp
    rw [hassoc, cut_append (by
      simp only [List.mem_append, List.mem_cons, htake, hdrop, hpoint, or_self,
        not_false_eq_true])]
    exact .inr ⟨_, rfl⟩

/-- A printed decimal denotes what the printer's reader says. -/
theorem decimalOf_format (d : Decimal) : decimalOf d.format = readDecimal d.format := by
  have hcapital : unit 'E' ∉ d.format := fun h =>
    absurd (isNumberUnit_of_mem_format h) (by decide)
  have hexponent : exponentValue (cut (unit 'e') d.format).2 =
      readExponent (cut (unit 'e') d.format).2 := by
    rcases cut_format d with h | ⟨n, h⟩
    · rw [h]
      rfl
    · rw [h, exponentValue_exponentText]
  unfold decimalOf readDecimal
  rw [cutExponent_eq_cut hcapital]
  simp only [hexponent]

/-- The text of a number reads back as the number, a negative zero as zero. -/
theorem numberOf_toText (x : JsNumber) : numberOf x.toText = some x.dropZeroSign := by
  unfold JsNumber.toText JsNumber.dropZeroSign
  by_cases hzero : x.mant = 0
  · rw [if_pos hzero, if_pos hzero]
    have hvalue : decimalOf (js "0") = 0 := by
      have hdigits : digitsValue (js "0") = 0 := rfl
      have hcut : cutExponent (js "0") = (js "0", []) := rfl
      unfold decimalOf
      rw [hcut]
      simp only
      rw [cut_of_not_mem (by decide), List.append_nil, hdigits, Nat.cast_zero, zero_mul]
    have hhead : ((js "0").head? == some (unit '-')) = false := by decide
    unfold numberOf
    rw [hhead]
    simp only [Bool.false_eq_true, if_false, hvalue, roundToDouble, le_refl, if_true]
    rfl
  · rw [if_neg hzero, if_neg hzero]
    have hround := roundToDouble_readDecimal x
    rw [← decimalOf_format] at hround
    cases hneg : x.neg with
    | true =>
      simp only [if_true]
      unfold numberOf
      simp only [List.head?_cons, BEq.rfl, if_true, List.drop_succ_cons, List.drop_zero, hround,
        dif_pos x.valid]
      rw [← hneg]
    | false =>
      simp only [Bool.false_eq_true, if_false]
      have hhead : ((((shortestDecimal x).strip (shortestDecimal x).digits).format).head? ==
          some (unit '-')) = false := by
        rw [beq_eq_false_iff_ne]
        intro heq
        obtain ⟨s, hs⟩ := List.head?_eq_some_iff.mp heq
        exact format_ne_minus _ _ hs
      unfold numberOf
      simp only [hhead, Bool.false_eq_true, if_false, hround, dif_pos x.valid]
      rw [← hneg]

/-! ## Strings -/

/-- Whether a code unit is a hexadecimal digit. -/
def isHexDigit (u : UInt16) : Bool := isDigit u || (97 ≤ u && u ≤ 102) || (65 ≤ u && u ≤ 70)

/-- The number that a hexadecimal digit of either case denotes. -/
def hexDigitValue (u : UInt16) : ℕ :=
  if isDigit u then u.toNat - 48 else if 97 ≤ u then u.toNat - 87 else u.toNat - 55

/-- The code unit that four hexadecimal digits denote. -/
def hexUnit (h₃ h₂ h₁ h₀ : UInt16) : UInt16 :=
  (4096 * hexDigitValue h₃ + 256 * hexDigitValue h₂ + 16 * hexDigitValue h₁ +
    hexDigitValue h₀).toUInt16

/-- The code units that one letter may stand for, next to their letters. -/
def letterEscapes : List (UInt16 × UInt16) := (unit '/', unit '/') :: shortEscapes

/-- The text between the quotes of a string token, and the string that it denotes. -/
inductive IsStringBody : JsString → JsString → Prop
  | nil : IsStringBody [] []
  | plain {u : UInt16} {body s : JsString} (hcontrol : 32 ≤ u) (hquote : u ≠ unit '"')
      (hslash : u ≠ unit '\\') (hbody : IsStringBody body s) : IsStringBody (u :: body) (u :: s)
  | letter {u e : UInt16} {body s : JsString} (he : (u, e) ∈ letterEscapes)
      (hbody : IsStringBody body s) : IsStringBody (unit '\\' :: e :: body) (u :: s)
  | hex {h₃ h₂ h₁ h₀ : UInt16} {body s : JsString}
      (hhex : ([h₃, h₂, h₁, h₀].all isHexDigit) = true) (hbody : IsStringBody body s) :
      IsStringBody (unit '\\' :: unit 'u' :: h₃ :: h₂ :: h₁ :: h₀ :: body) (hexUnit h₃ h₂ h₁ h₀ :: s)

/-- `JSON.parse` of a string token, from the text between its quotes; `none` where it
throws. -/
def unescape : JsString → Option JsString
  | [] => some []
  | c :: text =>
    if c = unit '\\' then
      match text with
      | [] => none
      | e :: rest =>
        if e = unit 'u' then
          match rest with
          | h₃ :: h₂ :: h₁ :: h₀ :: rest' =>
            if [h₃, h₂, h₁, h₀].all isHexDigit then
              (unescape rest').map (hexUnit h₃ h₂ h₁ h₀ :: ·)
            else none
          | _ => none
        else
          match letterEscapes.find? (fun x => x.2 == e) with
          | some x => (unescape rest).map (x.1 :: ·)
          | none => none
    else if c < 32 ∨ c = unit '"' then none
    else (unescape text).map (c :: ·)

/-- The letters of escapes, next to their code units, are found by the letter. -/
theorem find_letterEscapes {u e : UInt16} (h : (u, e) ∈ letterEscapes) :
    e ≠ unit 'u' ∧ letterEscapes.find? (fun x => x.2 == e) = some (u, e) := by
  have hall : (letterEscapes.all fun x => decide (x.2 ≠ unit 'u' ∧
      letterEscapes.find? (fun y => y.2 == x.2) = some x)) = true := by decide
  exact of_decide_eq_true (List.all_eq_true.mp hall _ h)

/-- A string token parses to the string that it denotes. -/
theorem IsStringBody.unescape_eq {body s : JsString} (h : IsStringBody body s) :
    unescape body = some s := by
  induction h with
  | nil => rfl
  | plain hcontrol hquote hslash hbody ih =>
    rw [unescape.eq_def]
    simp only [if_neg hslash, UInt16.not_lt.mpr hcontrol, hquote, or_self, if_false, ih, Option.map_some]
  | letter he hbody ih =>
    obtain ⟨hne, hfind⟩ := find_letterEscapes he
    rw [unescape.eq_def]
    simp only [if_true, if_neg hne, hfind, ih, Option.map_some]
  | hex hhex hbody ih =>
    rw [unescape.eq_def]
    simp only [if_true, hhex, ih, Option.map_some]

/-- A printed hexadecimal digit is one, and denotes what was printed. -/
theorem isHexDigit_hexDigit {d : ℕ} (hd : d < 16) :
    isHexDigit (hexDigit d) = true ∧ hexDigitValue (hexDigit d) = d := by
  interval_cases d <;> exact ⟨rfl, rfl⟩

/-- The printed escape of a code unit denotes it. -/
theorem hexUnit_hexDigit (u : UInt16) : hexUnit (hexDigit (u.toNat / 4096))
    (hexDigit (u.toNat / 256 % 16)) (hexDigit (u.toNat / 16 % 16)) (hexDigit (u.toNat % 16)) =
      u := by
  have hu : u.toNat < 65536 := u.toNat_lt
  unfold hexUnit
  rw [(isHexDigit_hexDigit (by omega)).2, (isHexDigit_hexDigit (by omega)).2,
    (isHexDigit_hexDigit (by omega)).2, (isHexDigit_hexDigit (by omega)).2]
  have hsum : 4096 * (u.toNat / 4096) + 256 * (u.toNat / 256 % 16) + 16 * (u.toNat / 16 % 16) +
      u.toNat % 16 = u.toNat := by omega
  rw [hsum]
  exact UInt16.ofNat_toNat

/-- A code unit as it is printed denotes itself. -/
theorem IsStringBody.escapeUnit {body s : JsString} (h : IsStringBody body s) (u : UInt16) :
    IsStringBody (escapeUnit u ++ body) (u :: s) := by
  unfold Js.escapeUnit
  cases hfind : shortEscapes.find? (fun e => e.1 == u) with
  | some e =>
    obtain rfl : e.1 = u := by simpa using List.find?_some hfind
    exact .letter (List.mem_cons_of_mem _ (List.mem_of_find?_eq_some hfind)) h
  | none =>
    have hnot := List.find?_eq_none.mp hfind
    simp only
    split_ifs with hplain
    · have hhex : ([hexDigit (u.toNat / 4096), hexDigit (u.toNat / 256 % 16),
          hexDigit (u.toNat / 16 % 16), hexDigit (u.toNat % 16)].all isHexDigit) = true := by
        have hu : u.toNat < 65536 := u.toNat_lt
        simp only [List.all_cons, List.all_nil, Bool.and_true, Bool.and_eq_true]
        exact ⟨(isHexDigit_hexDigit (by omega)).1, (isHexDigit_hexDigit (by omega)).1,
          (isHexDigit_hexDigit (by omega)).1, (isHexDigit_hexDigit (by omega)).1⟩
      have hunit := IsStringBody.hex hhex h
      rwa [hexUnit_hexDigit] at hunit
    · refine .plain ?_ ?_ ?_ h
      · simp only [Bool.or_eq_true, decide_eq_true_eq, not_or] at hplain
        exact UInt16.not_lt.mp hplain.1.1
      · rintro rfl
        exact hnot (unit '"', unit '"') (by decide) (by decide)
      · rintro rfl
        exact hnot (unit '\\', unit '\\') (by decide) (by decide)

/-- A surrogate is no control character. -/
theorem le_of_surrogate {u : UInt16} (hu : isHighSurrogate u = true ∨ isLowSurrogate u = true) :
    32 ≤ u := by
  have hlow : (32 : UInt16).toNat = 32 := rfl
  rw [UInt16.le_iff_toNat_le, hlow]
  rcases hu with hu | hu
  · simp only [isHighSurrogate, Bool.and_eq_true, decide_eq_true_eq, UInt16.le_iff_toNat_le] at hu
    exact le_trans (by decide) hu.1
  · simp only [isLowSurrogate, Bool.and_eq_true, decide_eq_true_eq, UInt16.le_iff_toNat_le] at hu
    exact le_trans (by decide) hu.1

/-- A printed string denotes itself. -/
theorem isStringBody_quoteBody (s : JsString) : IsStringBody (quoteBody s) s := by
  induction s using quoteBody.induct with
  | case1 => exact .nil
  | case2 u =>
    have h := IsStringBody.nil.escapeUnit u
    rwa [List.append_nil] at h
  | case3 u v s hpair ih =>
    rw [quoteBody, if_pos hpair]
    simp only [Bool.and_eq_true] at hpair
    have hu := surrogate_ne (.inl hpair.1)
    have hv := surrogate_ne (.inr hpair.2)
    exact .plain (le_of_surrogate (.inl hpair.1)) hu.1 hu.2
      (.plain (le_of_surrogate (.inr hpair.2)) hv.1 hv.2 ih)
  | case4 u v s hpair ih =>
    rw [quoteBody, if_neg hpair]
    exact ih.escapeUnit u

/-- `s.isWellFormed()`: no surrogate of the string stands alone. -/
def isWellFormed : JsString → Bool
  | [] => true
  | [u] => !isHighSurrogate u && !isLowSurrogate u
  | u :: v :: s =>
    if isHighSurrogate u then isLowSurrogate v && isWellFormed s
    else !isLowSurrogate u && isWellFormed (v :: s)

end Js
