import T3x.Js.Str
import Mathlib.Data.Rat.Floor
import Mathlib.Algebra.Order.Archimedean.Basic

/-!
# Finite numbers of the scripting language

A finite number is an IEEE-754 double: a sign, a significand and an exponent in
normal form, so that two numbers are the same value of the language exactly
when they are equal here, and only the two zeros are distinct values of one
real number. Printing follows the language's shortest round-trip rule.
-/

namespace Js

/-- A significand and an exponent in the normal form of a double. -/
def IsDouble (mant : ℕ) (exp : ℤ) : Prop :=
  mant < 2 ^ 53 ∧ -1074 ≤ exp ∧ exp ≤ 971 ∧ (2 ^ 52 ≤ mant ∨ exp = -1074)

instance (mant : ℕ) (exp : ℤ) : Decidable (IsDouble mant exp) :=
  inferInstanceAs (Decidable (_ ∧ _))

/-- A finite double: `± mant * 2 ^ exp`. -/
structure JsNumber where
  /-- The sign bit. -/
  neg : Bool
  /-- The significand. -/
  mant : ℕ
  /-- The exponent of two. -/
  exp : ℤ
  /-- The pair is in normal form. -/
  valid : IsDouble mant exp
  deriving DecidableEq

/-- The number `0`. -/
def JsNumber.zero : JsNumber := ⟨false, 0, -1074, by decide⟩

instance : Inhabited JsNumber := ⟨.zero⟩

/-- The absolute value as a rational. -/
def JsNumber.magnitude (x : JsNumber) : ℚ := x.mant * (2 : ℚ) ^ x.exp

/-- The real number that a double stands for. -/
def JsNumber.toRat (x : JsNumber) : ℚ := if x.neg then -x.magnitude else x.magnitude

/-- `x < y`. -/
def JsNumber.lt (x y : JsNumber) : Bool := decide (x.toRat < y.toRat)

/-- The number with the sign of a zero dropped, so that `-0` becomes `0`. -/
def JsNumber.dropZeroSign (x : JsNumber) : JsNumber := if x.mant = 0 then .zero else x

/-- `x === y`: the same double, the two zeros being equal. -/
def JsNumber.strictEq (x y : JsNumber) : Bool := decide (x.dropZeroSign = y.dropZeroSign)

/-- Dropping the sign of a zero twice changes nothing. -/
@[simp] theorem JsNumber.dropZeroSign_idem (x : JsNumber) :
    x.dropZeroSign.dropZeroSign = x.dropZeroSign := by
  unfold dropZeroSign
  split_ifs <;> rfl

/-- Dropping the sign of a zero keeps the real number. -/
theorem JsNumber.toRat_dropZeroSign (x : JsNumber) : x.dropZeroSign.toRat = x.toRat := by
  unfold dropZeroSign
  split_ifs with h
  · simp [toRat, magnitude, zero, h]
  · rfl

/-! ## Rounding to a double -/

/-- The natural number nearest to a nonnegative rational, ties to even. -/
def roundHalfEven (q : ℚ) : ℕ :=
  let n := ⌊q⌋₊
  if q - n < 1 / 2 then n else if 1 / 2 < q - n then n + 1 else if n % 2 = 0 then n else n + 1

/-- The exponent of two of the binade of a positive rational. -/
def binade (q : ℚ) : ℤ :=
  let d : ℤ := (q.num.natAbs.log2 : ℤ) - (q.den.log2 : ℤ)
  if (2 : ℚ) ^ d ≤ q then d else d - 1

/-- The significand and exponent of the double nearest to a nonnegative
rational, ties to even; `none` past the largest double. -/
def roundToDouble (q : ℚ) : Option (ℕ × ℤ) :=
  if q ≤ 0 then some (0, -1074)
  else
    let e := max (-1074) (binade q - 52)
    let m := roundHalfEven (q / (2 : ℚ) ^ e)
    if m < 2 ^ 53 then if e ≤ 971 then some (m, e) else none
    else if e + 1 ≤ 971 then some (2 ^ 52, e + 1) else none

/-- A natural number rounds to itself. -/
@[simp] theorem roundHalfEven_natCast (n : ℕ) : roundHalfEven (n : ℚ) = n := by
  simp [roundHalfEven]

/-- The binade of a positive rational brackets it between two powers of two. -/
theorem binade_spec {q : ℚ} (hq : 0 < q) :
    (2 : ℚ) ^ binade q ≤ q ∧ q < (2 : ℚ) ^ (binade q + 1) := by
  have hnum : 0 < q.num := Rat.num_pos.mpr hq
  obtain ⟨a, ha⟩ : ∃ a : ℕ, q.num = a := ⟨q.num.toNat, (Int.toNat_of_nonneg hnum.le).symm⟩
  have ha0 : a ≠ 0 := by omega
  have hb0 : q.den ≠ 0 := q.den_nz
  have hqd : q * q.den = a := by
    have h := Rat.mul_den_eq_num q
    rw [ha] at h
    exact_mod_cast h
  have hla : 2 ^ a.log2 ≤ a := Nat.log2_self_le ha0
  have hua : a < 2 ^ (a.log2 + 1) := Nat.lt_log2_self
  have hlb : 2 ^ q.den.log2 ≤ q.den := Nat.log2_self_le hb0
  have hub : q.den < 2 ^ (q.den.log2 + 1) := Nat.lt_log2_self
  have hden : (0 : ℚ) < q.den := by exact_mod_cast q.den_pos
  set la := a.log2 with hla_def
  set lb := q.den.log2 with hlb_def
  have hla' : (2 : ℚ) ^ la ≤ a := by exact_mod_cast hla
  have hua' : (a : ℚ) < 2 ^ (la + 1) := by exact_mod_cast hua
  have hlb' : (2 : ℚ) ^ lb ≤ q.den := by exact_mod_cast hlb
  have hub' : (q.den : ℚ) < 2 ^ (lb + 1) := by exact_mod_cast hub
  have hdiv : ∀ d : ℤ, (2 : ℚ) ^ (d - lb) = 2 ^ d / 2 ^ lb := by
    intro d
    rw [zpow_sub₀ (by norm_num), zpow_natCast]
  have hupper : q < (2 : ℚ) ^ ((la : ℤ) - lb + 1) := by
    have h : (la : ℤ) - lb + 1 = ((la + 1 : ℕ) : ℤ) - lb := by push_cast; ring
    rw [h, hdiv, zpow_natCast, lt_div_iff₀ (by positivity)]
    calc q * 2 ^ lb ≤ q * q.den := by gcongr
      _ = a := hqd
      _ < 2 ^ (la + 1) := hua'
  have hlower : (2 : ℚ) ^ ((la : ℤ) - lb - 1) ≤ q := by
    have h : (la : ℤ) - lb - 1 = (la : ℤ) - ((lb + 1 : ℕ) : ℤ) := by push_cast; ring
    rw [h, zpow_sub₀ (by norm_num), zpow_natCast, zpow_natCast, div_le_iff₀ (by positivity)]
    calc (2 : ℚ) ^ la ≤ a := hla'
      _ = q * q.den := hqd.symm
      _ ≤ q * 2 ^ (lb + 1) := by gcongr
  unfold binade
  rw [ha, Int.natAbs_natCast]
  simp only [← hla_def, ← hlb_def]
  split_ifs with h
  · exact ⟨h, hupper⟩
  · refine ⟨hlower, ?_⟩
    rw [sub_add_cancel]
    exact not_le.mp h

/-- The binade of a rational is the exponent of any bracket of it. -/
theorem binade_eq {q : ℚ} {e : ℤ} (hlow : (2 : ℚ) ^ e ≤ q) (hhigh : q < (2 : ℚ) ^ (e + 1)) :
    binade q = e := by
  have hq : 0 < q := lt_of_lt_of_le (by positivity) hlow
  obtain ⟨hl, hh⟩ := binade_spec hq
  have h1 : binade q < e + 1 := (zpow_lt_zpow_iff_right₀ (by norm_num)).mp (hl.trans_lt hhigh)
  have h2 : e < binade q + 1 := (zpow_lt_zpow_iff_right₀ (by norm_num)).mp (hlow.trans_lt hh)
  omega

/-- A double rounds to itself. -/
theorem roundToDouble_magnitude (x : JsNumber) :
    roundToDouble x.magnitude = some (x.mant, x.exp) := by
  obtain ⟨hlt, hmin, hmax, hnormal⟩ := x.valid
  have hpow : (0 : ℚ) < (2 : ℚ) ^ x.exp := by positivity
  by_cases hzero : x.mant = 0
  · have hexp : x.exp = -1074 := by
      rcases hnormal with h | h
      · omega
      · exact h
    simp [roundToDouble, JsNumber.magnitude, hzero, hexp]
  · have hmant : (0 : ℚ) < x.mant := by exact_mod_cast Nat.pos_of_ne_zero hzero
    have hpos : 0 < x.magnitude := mul_pos hmant hpow
    have hupper : x.magnitude < (2 : ℚ) ^ (x.exp + 53) := by
      have hm : (x.mant : ℚ) < 2 ^ (53 : ℕ) := by exact_mod_cast hlt
      calc x.magnitude < 2 ^ (53 : ℕ) * (2 : ℚ) ^ x.exp := by
            unfold JsNumber.magnitude
            gcongr
        _ = (2 : ℚ) ^ (x.exp + 53) := by
            rw [zpow_add₀ (by norm_num), mul_comm]
            norm_num
    have he : max (-1074) (binade x.magnitude - 52) = x.exp := by
      have hb := (zpow_lt_zpow_iff_right₀ (by norm_num : (1 : ℚ) < 2)).mp
        ((binade_spec hpos).1.trans_lt hupper)
      rcases hnormal with h | h
      · have hlower : (2 : ℚ) ^ (x.exp + 52) ≤ x.magnitude := by
          have hm : ((2 : ℚ) ^ (52 : ℕ)) ≤ x.mant := by exact_mod_cast h
          calc (2 : ℚ) ^ (x.exp + 52) = 2 ^ (52 : ℕ) * (2 : ℚ) ^ x.exp := by
                rw [zpow_add₀ (by norm_num), mul_comm]
                norm_num
            _ ≤ x.magnitude := by
                unfold JsNumber.magnitude
                gcongr
        have hbin := binade_eq hlower (by rw [add_assoc]; exact hupper)
        omega
      · omega
    have hround : roundHalfEven (x.magnitude / (2 : ℚ) ^ x.exp) = x.mant := by
      unfold JsNumber.magnitude
      rw [mul_div_cancel_right₀ _ hpow.ne', roundHalfEven_natCast]
    unfold roundToDouble
    rw [if_neg (not_le.mpr hpos)]
    simp only [he, hround]
    rw [if_pos hlt, if_pos hmax]

/-- Two doubles of one sign and one magnitude are equal. -/
theorem JsNumber.eq_of_magnitude {x y : JsNumber} (hneg : x.neg = y.neg)
    (hmag : x.magnitude = y.magnitude) : x = y := by
  have h := roundToDouble_magnitude x
  rw [hmag, roundToDouble_magnitude y] at h
  obtain ⟨hm, he⟩ := Prod.mk.inj (Option.some.inj h)
  obtain ⟨_, _, _, _⟩ := x
  obtain ⟨_, _, _, _⟩ := y
  simp_all

/-- Two doubles that stand for one number are equal up to the sign of zero. -/
theorem JsNumber.dropZeroSign_eq_iff {x y : JsNumber} :
    x.dropZeroSign = y.dropZeroSign ↔ x.toRat = y.toRat := by
  refine ⟨fun h => by rw [← toRat_dropZeroSign x, h, toRat_dropZeroSign], fun h => ?_⟩
  have hpos : ∀ z : JsNumber, z.mant ≠ 0 → 0 < z.magnitude := fun z hz =>
    mul_pos (by positivity) (by positivity)
  have hzero : ∀ z : JsNumber, z.mant = 0 → z.magnitude = 0 := fun z hz => by simp [magnitude, hz]
  have hnonneg : ∀ z : JsNumber, 0 ≤ z.magnitude := fun z =>
    mul_nonneg (Nat.cast_nonneg _) (by positivity)
  have hx := hnonneg x
  have hy := hnonneg y
  unfold toRat at h
  unfold dropZeroSign
  by_cases hxm : x.mant = 0
  · have hx0 := hzero x hxm
    have hy0 : y.mant = 0 := by
      by_contra hym
      have hy1 := hpos y hym
      split_ifs at h <;> linarith
    rw [if_pos hxm, if_pos hy0]
  · have hx1 := hpos x hxm
    have hym : y.mant ≠ 0 := by
      intro hym
      have hy0 := hzero y hym
      split_ifs at h <;> linarith
    have hy1 := hpos y hym
    rw [if_neg hxm, if_neg hym]
    cases hxs : x.neg <;> cases hys : y.neg <;> simp only [hxs, hys, if_true] at h
    · exact eq_of_magnitude (hxs.trans hys.symm) h
    · simp only [Bool.false_eq_true, if_false] at h
      linarith
    · simp only [Bool.false_eq_true, if_false] at h
      linarith
    · exact eq_of_magnitude (hxs.trans hys.symm) (neg_injective h)

end Js
