import T3x.Js.Shape

/-!
# Safe integers

A natural number below `2 ^ 53` is a double, and is printed as its digits:
the shortest decimal that rounds to it is an integer, and the only integer that
rounds to it is the number itself.
-/

namespace Js

/-- A number of `k` digits is at least the `k`-th power of ten over ten. -/
theorem pow_length_le {n : ℕ} (hn : n ≠ 0) : 10 ^ ((natToString n).length - 1) ≤ n := by
  have hdigits : ∀ fuel m, m ≤ fuel → m ≠ 0 → 10 ^ ((decimalDigits fuel m).length - 1) ≤ m := by
    intro fuel
    induction fuel with
    | zero =>
      intro m hm hne
      omega
    | succ fuel ih =>
      intro m hm hne
      unfold decimalDigits
      split_ifs with hlt
      · simpa using Nat.one_le_iff_ne_zero.mpr hne
      · have hrest := ih (m / 10) (by omega) (by omega)
        have hpos : 0 < (decimalDigits fuel (m / 10)).length :=
          List.length_pos_of_ne_nil (decimalDigits_ne_nil _ _)
        obtain ⟨k, hk⟩ : ∃ k, (decimalDigits fuel (m / 10)).length = k + 1 :=
          ⟨(decimalDigits fuel (m / 10)).length - 1, by omega⟩
        simp only [List.length_append, List.length_singleton, hk, Nat.add_sub_cancel] at hrest ⊢
        rw [pow_succ]
        omega
  exact hdigits n n le_rfl hn

/-- The leading digit of a natural number. -/
theorem decade_natCast {n : ℕ} (hn : n ≠ 0) :
    decade (n : ℚ) = ((natToString n).length : ℤ) - 1 := by
  have hone : (natToString 1).length = 1 := rfl
  have hpos : 0 < (natToString n).length := List.length_pos_of_ne_nil (decimalDigits_ne_nil _ _)
  have hle : (10 : ℚ) ^ (((natToString n).length : ℤ) - 1) ≤ n := by
    obtain ⟨k, hk⟩ : ∃ k, (natToString n).length = k + 1 := ⟨(natToString n).length - 1, by omega⟩
    have hpow := pow_length_le hn
    rw [hk, Nat.add_sub_cancel] at hpow
    rw [hk, Nat.cast_add_one, add_sub_cancel_right, zpow_natCast]
    exact_mod_cast hpow
  unfold decade
  simp only [Rat.num_natCast, Int.natAbs_natCast, Rat.den_natCast, hone, Nat.cast_one]
  exact if_pos hle

/-! ## Rounding -/

/-- A safe integer rounds to itself. -/
theorem roundToDouble_natCast {n : ℕ} (hn : n < 2 ^ 53) :
    ∃ mant exp, roundToDouble (n : ℚ) = some (mant, exp) ∧ (mant : ℚ) * (2 : ℚ) ^ exp = n := by
  by_cases hzero : n = 0
  · subst hzero
    exact ⟨0, -1074, by simp [roundToDouble], by simp⟩
  · have hpos : (0 : ℚ) < n := by exact_mod_cast Nat.pos_of_ne_zero hzero
    obtain ⟨hlow, hhigh⟩ := binade_spec hpos
    have hbinade : binade n < 53 := by
      have hlt : (2 : ℚ) ^ binade n < 2 ^ (53 : ℤ) := hlow.trans_lt (by exact_mod_cast hn)
      exact (zpow_lt_zpow_iff_right₀ (by norm_num)).mp hlt
    obtain ⟨k, hk⟩ : ∃ k : ℕ, max (-1074) (binade n - 52) = -(k : ℤ) :=
      ⟨(-(max (-1074) (binade n - 52))).toNat, by omega⟩
    have hscaled : (n : ℚ) / (2 : ℚ) ^ (-(k : ℤ)) = ((n * 2 ^ k : ℕ) : ℚ) := by
      rw [zpow_neg, zpow_natCast, div_inv_eq_mul]
      push_cast
      rfl
    have hsmall : n * 2 ^ k < 2 ^ 53 := by
      have hexp : binade n + 1 ≤ 53 + -(k : ℤ) := by omega
      have hlt : (n : ℚ) < (2 : ℚ) ^ (53 + -(k : ℤ)) :=
        hhigh.trans_le (zpow_le_zpow_right₀ (by norm_num) hexp)
      rw [zpow_add₀ (by norm_num), zpow_neg, zpow_natCast, ← div_eq_mul_inv,
        lt_div_iff₀ (by positivity)] at hlt
      exact_mod_cast hlt
    refine ⟨n * 2 ^ k, -(k : ℤ), ?_, ?_⟩
    · unfold roundToDouble
      rw [if_neg (not_le.mpr hpos), hk]
      simp only [hscaled, roundHalfEven_natCast, if_pos hsmall]
      exact if_pos (by omega)
    · rw [zpow_neg, zpow_natCast]
      push_cast
      field_simp

/-- An integer that is not safe rounds to no less than the first such. -/
theorem le_roundToDouble {n mant : ℕ} {exp : ℤ} (hn : 2 ^ 53 ≤ n)
    (h : roundToDouble (n : ℚ) = some (mant, exp)) : (2 : ℚ) ^ 53 ≤ mant * (2 : ℚ) ^ exp := by
  have hpos : (0 : ℚ) < n := by
    have hpos' : 0 < n := lt_of_lt_of_le (by norm_num) hn
    exact_mod_cast hpos'
  obtain ⟨hlow, hhigh⟩ := binade_spec hpos
  have hbinade : 53 ≤ binade n := by
    have hlt : (2 : ℚ) ^ (53 : ℤ) < 2 ^ (binade n + 1) := by
      refine lt_of_le_of_lt ?_ hhigh
      exact_mod_cast hn
    have hexp := (zpow_lt_zpow_iff_right₀ (by norm_num)).mp hlt
    omega
  have hmax : max (-1074) (binade n - 52) = binade n - 52 := max_eq_right (by omega)
  have hpow : (2 : ℚ) ^ (1 : ℤ) ≤ 2 ^ (binade n - 52) :=
    zpow_le_zpow_right₀ (by norm_num) (by omega)
  have hbound : ∀ (m : ℕ) (e : ℤ), 2 ^ 52 ≤ m → binade n - 52 ≤ e →
      (2 : ℚ) ^ 53 ≤ m * (2 : ℚ) ^ e := by
    intro m e hm he
    have hm' : (2 : ℚ) ^ 52 ≤ m := by exact_mod_cast hm
    have he' : (2 : ℚ) ≤ 2 ^ e := by
      refine le_trans ?_ (zpow_le_zpow_right₀ (by norm_num) he)
      simpa using hpow
    calc (2 : ℚ) ^ 53 = (2 : ℚ) ^ 52 * (2 : ℚ) := by norm_num
      _ ≤ m * (2 : ℚ) ^ e := mul_le_mul hm' he' (by norm_num) (by positivity)
  unfold roundToDouble at h
  rw [if_neg (not_le.mpr hpos)] at h
  simp only [hmax] at h
  have hround : 2 ^ 52 ≤ roundHalfEven ((n : ℚ) / (2 : ℚ) ^ (binade n - 52)) := by
    apply le_roundHalfEven
    rw [le_div_iff₀ (by positivity)]
    calc ((2 ^ 52 : ℕ) : ℚ) * (2 : ℚ) ^ (binade n - 52) = (2 : ℚ) ^ binade n := by
          rw [zpow_sub₀ (by norm_num)]
          push_cast
          field_simp
      _ ≤ n := hlow
  split_ifs at h
  · obtain ⟨rfl, rfl⟩ := Prod.mk.inj (Option.some.inj h)
    exact hbound _ _ hround le_rfl
  · obtain ⟨rfl, rfl⟩ := Prod.mk.inj (Option.some.inj h)
    exact hbound _ _ le_rfl (by omega)

/-- The only integer that rounds to a safe integer is the integer itself. -/
theorem eq_of_roundToDouble {n m mant : ℕ} {exp : ℤ} (hn : n < 2 ^ 53)
    (hvalue : (mant : ℚ) * (2 : ℚ) ^ exp = n) (h : roundToDouble (m : ℚ) = some (mant, exp)) :
    m = n := by
  by_cases hm : m < 2 ^ 53
  · obtain ⟨mant', exp', hround, hvalue'⟩ := roundToDouble_natCast hm
    obtain ⟨rfl, rfl⟩ := Prod.mk.inj (Option.some.inj (hround.symm.trans h))
    exact_mod_cast hvalue'.symm.trans hvalue
  · have hle := le_roundToDouble (not_lt.mp hm) h
    rw [hvalue] at hle
    have hle' : 2 ^ 53 ≤ n := by exact_mod_cast hle
    omega

/-! ## Printing -/

/-- The shortest decimal of a positive safe integer is an integer. -/
theorem exp_shortestDecimal_nonneg {x : JsNumber} {n : ℕ} (hn : n < 2 ^ 53) (hpos : n ≠ 0)
    (hx : x.magnitude = n) : 0 ≤ (shortestDecimal x).exp := by
  have hdecade := decade_natCast hpos
  have hlength : 0 < (natToString n).length :=
    List.length_pos_of_ne_nil (decimalDigits_ne_nil _ _)
  obtain ⟨k, hk⟩ : ∃ k, (natToString n).length = k + 1 := ⟨(natToString n).length - 1, by omega⟩
  have hk17 : k < 17 := by
    have hpow := pow_length_le hpos
    rw [hk, Nat.add_sub_cancel] at hpow
    by_contra hge
    have hle : 10 ^ 17 ≤ 10 ^ k := Nat.pow_le_pow_right (by norm_num) (not_lt.mp hge)
    omega
  -- with all its digits the number itself is the first candidate
  have hself : (decimalCandidates x.magnitude (k + 1)).find? (fun d => d.roundsTo x) ≠ none := by
    have he : decade (n : ℚ) + 1 - ((k + 1 : ℕ) : ℤ) = 0 := by
      rw [hdecade, hk]
      omega
    have hrounds : (⟨n, 0⟩ : Decimal).roundsTo x = true := by
      have hvalue : (⟨n, 0⟩ : Decimal).value = x.magnitude := by simp [Decimal.value, hx]
      exact decide_eq_true (by rw [hvalue, roundToDouble_magnitude])
    rw [hx, decimalCandidates]
    simp only [he, zpow_zero, div_one, Nat.floor_natCast, sub_self]
    rw [if_pos (.inl (by norm_num)), List.find?_cons, hrounds]
    exact Option.some_ne_none _
  have hcandidate : ∀ j d, d ∈ decimalCandidates x.magnitude (j + 1) → j ≤ k → 0 ≤ d.exp := by
    intro j d hd hj
    rw [hx] at hd
    unfold decimalCandidates at hd
    simp only [hdecade, hk] at hd
    split_ifs at hd <;>
      · simp only [List.mem_cons, List.not_mem_nil, or_false] at hd
        rcases hd with rfl | rfl <;>
          · push_cast
            omega
  unfold shortestDecimal
  rw [List.find?_flatMap]
  cases hfind : (List.range 17).findSome? fun j =>
      (decimalCandidates x.magnitude (j + 1)).find? fun d => d.roundsTo x with
  | none =>
    exact absurd (List.findSome?_eq_none_iff.mp hfind k (List.mem_range.mpr hk17)) hself
  | some d =>
    rw [Option.getD_some]
    obtain ⟨before, j, after, hsplit, hd, hnone⟩ := List.findSome?_eq_some_iff.mp hfind
    refine hcandidate j d (List.mem_of_find?_eq_some hd) ?_
    by_contra hlt
    have hmem : k ∈ before := by
      have hrange : k ∈ before ++ j :: after := hsplit ▸ List.mem_range.mpr hk17
      rcases List.mem_append.mp hrange with hmem | hmem
      · exact hmem
      · have hpairwise : (before ++ j :: after).Pairwise (· < ·) :=
          hsplit ▸ List.pairwise_lt_range
        have hafter := (List.pairwise_cons.mp (List.pairwise_append.mp hpairwise).2.1).1
        rcases List.mem_cons.mp hmem with rfl | hmem
        · omega
        · have hjk := hafter k hmem
          omega
    exact hself (hnone k hmem)

/-- Dropping trailing zeros does not make the exponent smaller. -/
theorem exp_le_exp_strip (fuel : ℕ) (d : Decimal) : d.exp ≤ (d.strip fuel).exp := by
  induction fuel generalizing d with
  | zero => exact le_rfl
  | succ fuel ih =>
    unfold Decimal.strip
    split_ifs
    · have hle := ih ⟨d.digits / 10, d.exp + 1⟩
      simp only at hle
      omega
    · exact le_rfl

/-- A safe integer as a decimal is written with digits only, which denote it. -/
theorem format_of_exp_nonneg {d : Decimal} {n : ℕ} (hexp : 0 ≤ d.exp) (hn : n < 2 ^ 53)
    (hpos : n ≠ 0) (hvalue : d.value = n) :
    (∀ u ∈ d.format, isDigit u = true) ∧ digitsValue d.format = n := by
  obtain ⟨digits, exp⟩ := d
  obtain ⟨e, rfl⟩ := Int.eq_ofNat_of_zero_le hexp
  have hdigits : digits * 10 ^ e = n := by
    simp only [Decimal.value, zpow_natCast] at hvalue
    exact_mod_cast hvalue
  have hne : digits ≠ 0 := by
    rintro rfl
    omega
  have hbound : e + (natToString digits).length ≤ 21 := by
    have hpow := pow_length_le hne
    have hpos' : 0 < (natToString digits).length :=
      List.length_pos_of_ne_nil (decimalDigits_ne_nil _ _)
    by_contra hlt
    have hge : 10 ^ 20 ≤ 10 ^ ((natToString digits).length - 1 + e) :=
      Nat.pow_le_pow_right (by norm_num) (by omega)
    have hle : 10 ^ ((natToString digits).length - 1 + e) ≤ n := by
      rw [pow_add, ← hdigits]
      exact Nat.mul_le_mul_right _ hpow
    omega
  have hformat : Decimal.format ⟨digits, e⟩ =
      natToString digits ++ List.replicate e (unit '0') := by
    unfold Decimal.format
    simp only
    rw [if_pos (by omega)]
    congr 2
    omega
  rw [hformat]
  refine ⟨fun u hu => ?_, ?_⟩
  · rcases List.mem_append.mp hu with hu | hu
    · exact isDigit_of_mem_natToString hu
    · rw [List.eq_of_mem_replicate hu]
      rfl
  · rw [digitsValue_append_zeros, digitsValue_natToString, hdigits]

/-- The text of a number that is a safe integer has digits only, which denote it. -/
theorem toText_of_natural {x : JsNumber} {n : ℕ} (hn : n < 2 ^ 53) (hneg : x.neg = false)
    (hx : x.magnitude = n) :
    x.toText ≠ [] ∧ (∀ u ∈ x.toText, isDigit u = true) ∧ digitsValue x.toText = n := by
  unfold JsNumber.toText
  by_cases hmant : x.mant = 0
  · rw [if_pos hmant]
    have hzero : n = 0 := by
      rw [JsNumber.magnitude, hmant, Nat.cast_zero, zero_mul] at hx
      exact_mod_cast hx.symm
    subst hzero
    exact ⟨by decide, List.all_eq_true.mp (by decide), rfl⟩
  · rw [if_neg hmant, hneg, if_neg (by decide)]
    have hpos : n ≠ 0 := by
      rintro rfl
      have hmul : (0 : ℚ) < x.magnitude := mul_pos (by positivity) (by positivity)
      rw [hx] at hmul
      simp at hmul
    have hexp := exp_shortestDecimal_nonneg hn hpos hx
    have hvalue : (shortestDecimal x).value = n := by
      obtain ⟨e, he⟩ := Int.eq_ofNat_of_zero_le hexp
      have hnat : (shortestDecimal x).value = ((shortestDecimal x).digits * 10 ^ e : ℕ) := by
        rw [Decimal.value, he]
        push_cast
        simp
      have hround := roundToDouble_shortestDecimal x
      rw [hnat] at hround ⊢
      exact_mod_cast eq_of_roundToDouble hn hx hround
    have hformat := format_of_exp_nonneg
      (hexp.trans (exp_le_exp_strip (shortestDecimal x).digits (shortestDecimal x))) hn hpos
      ((Decimal.value_strip _ _).trans hvalue)
    refine ⟨fun hnil => ?_, hformat⟩
    have hdigits := hformat.2
    rw [hnil] at hdigits
    exact hpos hdigits.symm

/-- The digits of a safe integer are read as the integer. -/
theorem numberOf_natToString {n : ℕ} (hn : n < 2 ^ 53) :
    ∃ x, numberOf (natToString n) = some x ∧ x.neg = false ∧ x.magnitude = n := by
  have hdigits : ∀ u ∈ natToString n, isDigit u = true := fun _ => isDigit_of_mem_natToString
  have hdecimal : decimalOf (natToString n) = n := by
    unfold decimalOf
    rw [cutExponent_eq_cut (not_mem_of_digits rfl hdigits),
      cut_of_not_mem (not_mem_of_digits rfl hdigits)]
    simp only
    rw [cut_of_not_mem (not_mem_of_digits rfl hdigits)]
    simp [exponentValue]
  have hminus : (natToString n).head? ≠ some (unit '-') := by
    intro hhead
    exact not_mem_of_digits rfl hdigits (List.mem_of_mem_head? hhead)
  obtain ⟨mant, exp, hround, hvalue⟩ := roundToDouble_natCast hn
  refine ⟨⟨false, mant, exp, isDouble_of_roundToDouble hround⟩, ?_, rfl, hvalue⟩
  unfold numberOf
  simp only [beq_eq_false_iff_ne.mpr hminus, Bool.false_eq_true, if_false, hdecimal, hround,
    dif_pos (isDouble_of_roundToDouble hround)]

/-- The digits of a safe integer are read as a number that is printed as digits, which denote
the integer. -/
theorem toText_numberOf {n : ℕ} (hn : n < 2 ^ 53) :
    ∃ x, numberOf (natToString n) = some x ∧ x.toText ≠ [] ∧
      (∀ u ∈ x.toText, isDigit u = true) ∧ digitsValue x.toText = n := by
  obtain ⟨x, hx, hneg, hvalue⟩ := numberOf_natToString hn
  exact ⟨x, hx, toText_of_natural hn hneg hvalue⟩

/-- A count is the integer that it counts. -/
theorem toRat_countNumber {n : ℕ} (hn : n < 2 ^ 53) : (countNumber n).toRat = n := by
  obtain ⟨x, hx, hneg, hvalue⟩ := numberOf_natToString hn
  rw [countNumber, hx, Option.getD_some, JsNumber.toRat, hneg, if_neg Bool.false_ne_true, hvalue]

/-- A count has the shape of the integers from a lesser one on. -/
theorem integer_countNumber {n : ℕ} (hn : n < 2 ^ 53) {least : ℤ} (hleast : least ≤ n) :
    Shape.integer least (.num (countNumber n)) = true := by
  have habs : |(n : ℤ)| < 2 ^ 53 := by
    rw [abs_of_nonneg (Int.natCast_nonneg n)]
    exact_mod_cast hn
  simp only [Shape.integer, toRat_countNumber hn, Rat.den_natCast, Rat.num_natCast]
  exact decide_eq_true ⟨True.intro, habs, hleast⟩

end Js
