import T3x.Js.Number

/-!
# Printing finite numbers

`String(x)` and `JSON.stringify(x)` write the shortest decimal that rounds back
to the number, in positional or exponent notation by its magnitude. Reading the
text back as a decimal gives a value that rounds to the number, so the text
determines the number up to the sign of zero.
-/

namespace Js

/-- A nonnegative decimal `digits * 10 ^ exp`. -/
structure Decimal where
  /-- The significant digits, as a number. -/
  digits : ℕ
  /-- The exponent of ten. -/
  exp : ℤ
  deriving DecidableEq

/-- The rational that a decimal denotes. -/
def Decimal.value (d : Decimal) : ℚ := d.digits * (10 : ℚ) ^ d.exp

/-- The exponent of ten of the leading digit of a positive rational. -/
def decade (q : ℚ) : ℤ :=
  let d : ℤ := ((natToString q.num.natAbs).length : ℤ) - (natToString q.den).length
  if (10 : ℚ) ^ d ≤ q then d else d - 1

/-- The two decimals of `k` significant digits around a positive rational, the
closer one first and the even one first on a tie. -/
def decimalCandidates (q : ℚ) (k : ℕ) : List Decimal :=
  let e := decade q + 1 - k
  let low := ⌊q / (10 : ℚ) ^ e⌋₊
  let rest := q / (10 : ℚ) ^ e - low
  if rest < 1 / 2 ∨ (rest = 1 / 2 ∧ low % 2 = 0) then [⟨low, e⟩, ⟨low + 1, e⟩]
  else [⟨low + 1, e⟩, ⟨low, e⟩]

/-- The full decimal expansion of a double, which always ends. -/
def exactDecimal (x : JsNumber) : Decimal :=
  if 0 ≤ x.exp then ⟨x.mant * 2 ^ x.exp.toNat, 0⟩
  else ⟨x.mant * 5 ^ (-x.exp).toNat, x.exp⟩

/-- Whether a decimal rounds to the magnitude of a double. -/
def Decimal.roundsTo (d : Decimal) (x : JsNumber) : Bool :=
  decide (roundToDouble d.value = some (x.mant, x.exp))

/-- The decimal with the fewest digits that rounds to a double. Seventeen
digits always suffice; the full expansion stands behind the search. -/
def shortestDecimal (x : JsNumber) : Decimal :=
  (((List.range 17).flatMap fun k => decimalCandidates x.magnitude (k + 1)).find?
    fun d => d.roundsTo x).getD (exactDecimal x)

/-- Drop trailing zeros of the digits, at most `fuel` of them. -/
def Decimal.strip : ℕ → Decimal → Decimal
  | 0, d => d
  | fuel + 1, d =>
    if d.digits ≠ 0 ∧ d.digits % 10 = 0 then strip fuel ⟨d.digits / 10, d.exp + 1⟩ else d

/-- The signed exponent of exponent notation, the point standing after digit `n`. -/
def exponentText (n : ℤ) : JsString :=
  (if 0 < n then unit '+' else unit '-') :: natToString (n - 1).natAbs

/-- The text of a positive decimal without trailing zeros: `digits` with `k`
digits and the decimal point after the `n`-th. -/
def Decimal.format (d : Decimal) : JsString :=
  let ds := natToString d.digits
  let k : ℤ := ds.length
  let n := d.exp + k
  if k ≤ n ∧ n ≤ 21 then ds ++ List.replicate (n - k).toNat (unit '0')
  else if 0 < n ∧ n ≤ 21 then ds.take n.toNat ++ unit '.' :: ds.drop n.toNat
  else if -6 < n ∧ n ≤ 0 then
    unit '0' :: unit '.' :: (List.replicate (-n).toNat (unit '0') ++ ds)
  else if ds.length = 1 then ds ++ unit 'e' :: exponentText n
  else ds.take 1 ++ unit '.' :: (ds.drop 1 ++ unit 'e' :: exponentText n)

/-- `String(x)`. -/
def JsNumber.toText (x : JsNumber) : JsString :=
  if x.mant = 0 then js "0"
  else
    let text := ((shortestDecimal x).strip (shortestDecimal x).digits).format
    if x.neg then unit '-' :: text else text

/-! ## Reading the text back -/

/-- The text before the first occurrence of a code unit and the text after it. -/
def cut (c : UInt16) (s : JsString) : JsString × JsString :=
  (s.takeWhile (· ≠ c), (s.dropWhile (· ≠ c)).drop 1)

/-- The exponent written after the `e`. -/
def readExponent : JsString → ℤ
  | [] => 0
  | c :: s => if c = unit '-' then -(digitsValue s : ℤ) else digitsValue s

/-- The rational that the text of a number denotes. -/
def readDecimal (s : JsString) : ℚ :=
  let (mantissa, exponent) := cut (unit 'e') s
  let (whole, fraction) := cut (unit '.') mantissa
  digitsValue (whole ++ fraction) * (10 : ℚ) ^ (readExponent exponent - fraction.length)

/-- Cutting at a code unit that does not occur leaves the text whole. -/
theorem cut_of_not_mem {c : UInt16} {s : JsString} (h : c ∉ s) : cut c s = (s, []) := by
  induction s with
  | nil => rfl
  | cons u s ih =>
    obtain ⟨hne, hmem⟩ : c ≠ u ∧ c ∉ s := by simpa [not_or] using h
    have hrest := Prod.mk.inj (ih hmem)
    simp only [cut, List.takeWhile_cons, List.dropWhile_cons, decide_eq_true (Ne.symm hne), if_true]
    exact Prod.ext (congrArg (u :: ·) hrest.1) hrest.2

/-- Cutting a text at the first occurrence of a code unit. -/
theorem cut_append {c : UInt16} {s t : JsString} (h : c ∉ s) : cut c (s ++ c :: t) = (s, t) := by
  induction s with
  | nil => simp [cut]
  | cons u s ih =>
    obtain ⟨hne, hmem⟩ : c ≠ u ∧ c ∉ s := by simpa [not_or] using h
    have hrest := Prod.mk.inj (ih hmem)
    simp only [cut, List.cons_append, List.takeWhile_cons, List.dropWhile_cons,
      decide_eq_true (Ne.symm hne), if_true]
    exact Prod.ext (congrArg (u :: ·) hrest.1) hrest.2

/-- A code unit that is no digit does not occur in digits. -/
theorem not_mem_of_digits {c : UInt16} {s : JsString} (hc : isDigit c = false)
    (hs : ∀ u ∈ s, isDigit u = true) : c ∉ s := by
  intro h
  simp [hs c h] at hc

/-- Every code unit of a printed natural number is a digit. -/
theorem isDigit_of_mem_natToString {n : ℕ} {u : UInt16} (h : u ∈ natToString n) :
    isDigit u = true :=
  isDigit_of_mem_decimalDigits h

/-- Trailing zeros multiply the number by a power of ten. -/
theorem digitsValue_append_zeros (s : JsString) (n : ℕ) :
    digitsValue (s ++ List.replicate n (unit '0')) = digitsValue s * 10 ^ n := by
  induction n with
  | zero => simp
  | succ n ih =>
    rw [List.replicate_succ', ← List.append_assoc, digitsValue_append_singleton, ih]
    have h0 : (unit '0').toNat - 48 = 0 := rfl
    rw [h0, pow_succ]
    ring

/-- Leading zeros leave the number as it is. -/
theorem digitsValue_zeros_append (n : ℕ) (s : JsString) :
    digitsValue (List.replicate n (unit '0') ++ s) = digitsValue s := by
  induction n with
  | zero => simp
  | succ n ih =>
    rw [List.replicate_succ, List.cons_append]
    exact ih

/-- Dropping trailing zeros keeps the value. -/
theorem Decimal.value_strip (fuel : ℕ) (d : Decimal) : (d.strip fuel).value = d.value := by
  induction fuel generalizing d with
  | zero => rfl
  | succ fuel ih =>
    unfold strip
    split_ifs with h
    · rw [ih]
      obtain ⟨m, hm⟩ : ∃ m, d.digits = 10 * m := ⟨d.digits / 10, by omega⟩
      simp only [value, hm, Nat.mul_div_cancel_left m (by norm_num : 0 < 10)]
      rw [zpow_add_one₀ (by norm_num)]
      push_cast
      ring
    · rfl

/-- Reading positional text without a decimal point. -/
theorem readDecimal_digits {s : JsString} (hs : ∀ u ∈ s, isDigit u = true) :
    readDecimal s = digitsValue s := by
  unfold readDecimal
  rw [cut_of_not_mem (not_mem_of_digits rfl hs)]
  simp only
  rw [cut_of_not_mem (not_mem_of_digits rfl hs)]
  simp [readExponent]

/-- Reading positional text with a decimal point. -/
theorem readDecimal_point {whole fraction : JsString} (hw : ∀ u ∈ whole, isDigit u = true)
    (hf : ∀ u ∈ fraction, isDigit u = true) :
    readDecimal (whole ++ unit '.' :: fraction) =
      digitsValue (whole ++ fraction) * (10 : ℚ) ^ (-(fraction.length : ℤ)) := by
  have he : unit 'e' ∉ whole ++ unit '.' :: fraction := by
    simp only [List.mem_append, List.mem_cons, not_or]
    exact ⟨not_mem_of_digits rfl hw, by decide, not_mem_of_digits rfl hf⟩
  unfold readDecimal
  rw [cut_of_not_mem he]
  simp only
  rw [cut_append (not_mem_of_digits rfl hw)]
  simp [readExponent]

/-- Reading exponent notation with one digit before the exponent. -/
theorem readDecimal_exponent {s exponent : JsString} (hs : ∀ u ∈ s, isDigit u = true) :
    readDecimal (s ++ unit 'e' :: exponent) =
      digitsValue s * (10 : ℚ) ^ readExponent exponent := by
  unfold readDecimal
  rw [cut_append (not_mem_of_digits rfl hs)]
  simp only
  rw [cut_of_not_mem (not_mem_of_digits rfl hs)]
  simp

/-- Reading exponent notation with a decimal point. -/
theorem readDecimal_point_exponent {whole fraction exponent : JsString}
    (hw : ∀ u ∈ whole, isDigit u = true) (hf : ∀ u ∈ fraction, isDigit u = true) :
    readDecimal (whole ++ unit '.' :: (fraction ++ unit 'e' :: exponent)) =
      digitsValue (whole ++ fraction) *
        (10 : ℚ) ^ (readExponent exponent - (fraction.length : ℤ)) := by
  have he : unit 'e' ∉ whole ++ unit '.' :: fraction := by
    simp only [List.mem_append, List.mem_cons, not_or]
    exact ⟨not_mem_of_digits rfl hw, by decide, not_mem_of_digits rfl hf⟩
  have hsplit : whole ++ unit '.' :: (fraction ++ unit 'e' :: exponent) =
      (whole ++ unit '.' :: fraction) ++ unit 'e' :: exponent := by simp
  unfold readDecimal
  rw [hsplit, cut_append he]
  simp only
  rw [cut_append (not_mem_of_digits rfl hw)]

/-- The exponent that the printer writes reads back as the exponent. -/
theorem readExponent_exponentText (n : ℤ) : readExponent (exponentText n) = n - 1 := by
  unfold exponentText
  by_cases h : 0 < n
  · have hne : ¬ unit '+' = unit '-' := by decide
    simp only [readExponent, if_pos h, if_neg hne, digitsValue_natToString]
    omega
  · simp only [readExponent, if_neg h, if_true, digitsValue_natToString]
    omega

/-- Reading the text of a decimal gives its value. -/
theorem readDecimal_format (d : Decimal) : readDecimal d.format = d.value := by
  have hds : ∀ u ∈ natToString d.digits, isDigit u = true := fun _ => isDigit_of_mem_natToString
  have hval : digitsValue (natToString d.digits) = d.digits := digitsValue_natToString _
  have hne : natToString d.digits ≠ [] := decimalDigits_ne_nil _ _
  unfold Decimal.format Decimal.value
  generalize natToString d.digits = ds at hds hval hne
  have htake : ∀ m, ∀ u ∈ ds.take m, isDigit u = true := fun m u hu => hds u (List.mem_of_mem_take hu)
  have hdrop : ∀ m, ∀ u ∈ ds.drop m, isDigit u = true := fun m u hu => hds u (List.mem_of_mem_drop hu)
  simp only
  split_ifs with h1 h2 h3 h4
  · rw [readDecimal_digits, digitsValue_append_zeros, hval]
    · obtain ⟨n, hn⟩ := Int.eq_ofNat_of_zero_le (by omega : 0 ≤ d.exp)
      simp [hn]
    · intro u hu
      rcases List.mem_append.mp hu with hu | hu
      · exact hds u hu
      · rw [List.eq_of_mem_replicate hu]
        rfl
  · rw [readDecimal_point (htake _) (hdrop _), List.take_append_drop, hval]
    congr 2
    simp only [List.length_drop]
    omega
  · have hcons : unit '0' :: unit '.' :: (List.replicate (-(d.exp + ds.length)).toNat (unit '0') ++ ds) =
        [unit '0'] ++ unit '.' :: (List.replicate (-(d.exp + ds.length)).toNat (unit '0') ++ ds) := rfl
    rw [hcons, readDecimal_point]
    · have hzeros : [unit '0'] ++ (List.replicate (-(d.exp + ds.length)).toNat (unit '0') ++ ds) =
          List.replicate ((-(d.exp + ds.length)).toNat + 1) (unit '0') ++ ds := by
        rw [List.replicate_succ]
        rfl
      rw [hzeros, digitsValue_zeros_append, hval]
      congr 2
      simp only [List.length_append, List.length_replicate]
      omega
    · intro u hu
      rw [List.mem_singleton.mp hu]
      rfl
    · intro u hu
      rcases List.mem_append.mp hu with hu | hu
      · rw [List.eq_of_mem_replicate hu]
        rfl
      · exact hds u hu
  · rw [readDecimal_exponent hds, readExponent_exponentText, hval]
    congr 2
    omega
  · rw [readDecimal_point_exponent (htake _) (hdrop _), readExponent_exponentText, List.take_append_drop, hval]
    congr 2
    have hpos : 0 < ds.length := List.length_pos_of_ne_nil hne
    simp only [List.length_drop]
    omega

/-- The full expansion of a double has its magnitude. -/
theorem exactDecimal_value (x : JsNumber) : (exactDecimal x).value = x.magnitude := by
  unfold exactDecimal Decimal.value JsNumber.magnitude
  split_ifs with h
  · obtain ⟨n, hn⟩ := Int.eq_ofNat_of_zero_le h
    simp [hn]
  · obtain ⟨n, hn⟩ := Int.eq_ofNat_of_zero_le (by omega : 0 ≤ -x.exp)
    have hexp : x.exp = -(n : ℤ) := by omega
    simp only [hexp, neg_neg, Int.toNat_natCast, zpow_neg, zpow_natCast]
    push_cast
    have h10 : (10 : ℚ) ^ n = 5 ^ n * 2 ^ n := by rw [← mul_pow]; norm_num
    rw [h10]
    field_simp

/-- The shortest decimal of a double rounds to it. -/
theorem roundToDouble_shortestDecimal (x : JsNumber) :
    roundToDouble (shortestDecimal x).value = some (x.mant, x.exp) := by
  unfold shortestDecimal
  cases hfind : ((List.range 17).flatMap fun k => decimalCandidates x.magnitude (k + 1)).find?
      fun d => d.roundsTo x with
  | none =>
    rw [Option.getD_none, exactDecimal_value]
    exact roundToDouble_magnitude x
  | some d =>
    rw [Option.getD_some]
    have hrounds := List.find?_some hfind
    exact of_decide_eq_true hrounds

/-- The text of a positive magnitude reads back as a decimal that rounds to it. -/
theorem roundToDouble_readDecimal (x : JsNumber) :
    roundToDouble (readDecimal ((shortestDecimal x).strip (shortestDecimal x).digits).format) =
      some (x.mant, x.exp) := by
  rw [readDecimal_format, Decimal.value_strip]
  exact roundToDouble_shortestDecimal x

/-- No text of a decimal begins with a minus sign. -/
theorem format_ne_minus (d : Decimal) (s : JsString) : d.format ≠ unit '-' :: s := by
  have hne : natToString d.digits ≠ [] := decimalDigits_ne_nil _ _
  have hds : ∀ u ∈ natToString d.digits, isDigit u = true := fun _ => isDigit_of_mem_natToString
  have hminus : isDigit (unit '-') = false := rfl
  obtain ⟨c, ds, hcons⟩ := List.exists_cons_of_ne_nil hne
  have hc : isDigit c = true := hds c (by simp [hcons])
  have hcm : c ≠ unit '-' := by
    rintro rfl
    simp [hc] at hminus
  unfold Decimal.format
  rw [hcons]
  simp only
  split_ifs with h1 h2 h3 h4
  · simp [hcm]
  · obtain ⟨m, hm⟩ : ∃ m, (d.exp + ((c :: ds).length : ℤ)).toNat = m + 1 :=
      ⟨(d.exp + ((c :: ds).length : ℤ)).toNat - 1, by omega⟩
    rw [hm, List.take_succ_cons, List.cons_append]
    intro h
    exact hcm (List.cons.inj h).1
  · intro h
    exact absurd (List.cons.inj h).1 (by decide)
  · simp [hcm]
  · simp [hcm]

/-- The text of a number determines it up to the sign of zero. -/
theorem JsNumber.dropZeroSign_eq_of_toText {x y : JsNumber} (h : x.toText = y.toText) :
    x.dropZeroSign = y.dropZeroSign := by
  have hzero : ∀ z : JsNumber, z.mant ≠ 0 →
      js "0" ≠ ((shortestDecimal z).strip (shortestDecimal z).digits).format := by
    intro z hz heq
    have hread := roundToDouble_readDecimal z
    have hread0 : readDecimal (js "0") = 0 := by
      rw [readDecimal_digits (List.all_eq_true.mp (by decide))]
      rfl
    rw [← heq, hread0] at hread
    simp only [roundToDouble, le_refl, if_true, Option.some.injEq, Prod.mk.injEq] at hread
    exact hz hread.1.symm
  have hminus : ∀ s, js "0" ≠ unit '-' :: s := by
    intro s hs
    exact absurd (List.cons.inj hs).1 (by decide)
  have hsame : ∀ {u v : JsNumber}, u.neg = v.neg →
      ((shortestDecimal u).strip (shortestDecimal u).digits).format =
        ((shortestDecimal v).strip (shortestDecimal v).digits).format → u = v := by
    intro u v hneg heq
    have hu := roundToDouble_readDecimal u
    rw [heq, roundToDouble_readDecimal v] at hu
    obtain ⟨hm, he⟩ := Prod.mk.inj (Option.some.inj hu)
    exact JsNumber.eq_of_magnitude hneg (by simp only [JsNumber.magnitude, hm, he])
  unfold toText at h
  unfold dropZeroSign
  by_cases hx : x.mant = 0 <;> by_cases hy : y.mant = 0
  · rw [if_pos hx, if_pos hy]
  · rw [if_pos hx, if_neg hy] at h
    cases hny : y.neg
    · simp only [hny, Bool.false_eq_true, if_false] at h
      exact absurd h (hzero y hy)
    · simp only [hny, if_true] at h
      exact absurd h (hminus _)
  · rw [if_neg hx, if_pos hy] at h
    cases hnx : x.neg
    · simp only [hnx, Bool.false_eq_true, if_false] at h
      exact absurd h.symm (hzero x hx)
    · simp only [hnx, if_true] at h
      exact absurd h.symm (hminus _)
  · rw [if_neg hx, if_neg hy] at h ⊢
    cases hnx : x.neg <;> cases hny : y.neg <;>
      simp only [hnx, hny, Bool.false_eq_true, if_false, if_true] at h
    · exact hsame (by rw [hnx, hny]) h
    · exact absurd h (format_ne_minus _ _)
    · exact absurd h.symm (format_ne_minus _ _)
    · exact hsame (by rw [hnx, hny]) (List.cons.inj h).2

/-- The text of a number does not show the sign of a zero. -/
@[simp] theorem JsNumber.toText_dropZeroSign (x : JsNumber) : x.dropZeroSign.toText = x.toText := by
  unfold dropZeroSign
  split_ifs with h
  · simp [toText, zero, h]
  · rfl

/-- Two numbers have one text exactly when they are equal up to the sign of zero. -/
theorem JsNumber.toText_eq_iff {x y : JsNumber} :
    x.toText = y.toText ↔ x.dropZeroSign = y.dropZeroSign := by
  refine ⟨dropZeroSign_eq_of_toText, fun h => ?_⟩
  rw [← toText_dropZeroSign x, h, toText_dropZeroSign]

end Js
