import T3x.Js.Utf8

/-!
# Texts of ASCII characters

The bytes of a text of ASCII characters are its code units, and between quotes
such a text stands as it is when it has no quote, backslash or control
character.
-/

namespace Js

/-- The code units are ASCII characters. -/
def IsAscii (s : JsString) : Prop := ∀ u ∈ s, u.toNat < 0x80

instance (s : JsString) : Decidable (IsAscii s) := List.decidableBAll _ s

/-- The code units as bytes. -/
def unitBytes (s : JsString) : List UInt8 := s.map fun u => u.toNat.toUInt8

/-- The characters of two texts are those of the texts. -/
theorem isAscii_append {s t : JsString} : IsAscii (s ++ t) ↔ IsAscii s ∧ IsAscii t := by
  simp only [IsAscii, List.mem_append, or_imp, forall_and]

/-- ASCII characters are no surrogates. -/
theorem not_surrogate_of_lt {u : UInt16} (h : u.toNat < 0x80) :
    isHighSurrogate u = false ∧ isLowSurrogate u = false := by
  have h1 : (0xD800 : UInt16).toNat = 0xD800 := rfl
  have h2 : (0xDC00 : UInt16).toNat = 0xDC00 := rfl
  simp only [isHighSurrogate, isLowSurrogate, Bool.and_eq_false_iff, decide_eq_false_iff_not,
    UInt16.le_iff_toNat_le, h1, h2]
  omega

/-- ASCII characters are their own code points. -/
theorem codePoints_of_isAscii {s : JsString} (h : IsAscii s) : codePoints s = s.map UInt16.toNat := by
  induction s with
  | nil => rfl
  | cons u s ih =>
    have hs := ih fun v hv => h v (List.mem_cons_of_mem _ hv)
    cases s with
    | nil => rfl
    | cons v s =>
      rw [codePoints, (not_surrogate_of_lt (h u List.mem_cons_self)).1, Bool.false_and,
        if_neg Bool.false_ne_true, hs]
      rfl

/-- The bytes of ASCII characters are their code units. -/
theorem encodeUtf8_of_isAscii {s : JsString} (h : IsAscii s) : encodeUtf8 s = unitBytes s := by
  rw [encodeUtf8, codePoints_of_isAscii h]
  induction s with
  | nil => rfl
  | cons u s ih =>
    have hu := h u List.mem_cons_self
    have hscalar : isSurrogatePoint u.toNat = false := by
      simp only [isSurrogatePoint, Bool.and_eq_false_iff, decide_eq_false_iff_not]
      omega
    rw [List.map_cons, List.flatMap_cons, ih fun v hv => h v (List.mem_cons_of_mem _ hv), hscalar,
      if_neg Bool.false_ne_true, pointBytes, if_pos hu]
    rfl

/-! ## Texts between quotes -/

/-- The code units are ASCII characters that stand as they are between quotes. -/
def IsPlain (s : JsString) : Prop :=
  ∀ u ∈ s, 32 ≤ u.toNat ∧ u.toNat < 0x80 ∧ u ≠ unit '"' ∧ u ≠ unit '\\'

instance (s : JsString) : Decidable (IsPlain s) := List.decidableBAll _ s

/-- Plain characters are ASCII characters. -/
theorem IsPlain.isAscii {s : JsString} (h : IsPlain s) : IsAscii s := fun u hu => (h u hu).2.1

/-- A plain character stands as it is. -/
theorem escapeUnit_of_plain {u : UInt16} (hlow : 32 ≤ u.toNat) (hhigh : u.toNat < 0x80)
    (hquote : u ≠ unit '"') (hslash : u ≠ unit '\\') : escapeUnit u = [u] := by
  have hfind : shortEscapes.find? (fun e => e.1 == u) = none := by
    rw [List.find?_eq_none]
    intro e he heq
    obtain rfl := eq_of_beq heq
    have hcontrol : ∀ e ∈ shortEscapes, e.1 = unit '"' ∨ e.1 = unit '\\' ∨ e.1.toNat < 32 :=
      forall_mem_of_all (by decide)
    rcases hcontrol e he with h | h | h
    · exact hquote h
    · exact hslash h
    · omega
  have hlt : ¬ u < 32 := by
    rw [UInt16.lt_iff_toNat_lt]
    have h32 : (32 : UInt16).toNat = 32 := rfl
    omega
  obtain ⟨hnothigh, hnotlow⟩ := not_surrogate_of_lt hhigh
  rw [escapeUnit, hfind]
  simp [hlt, hnothigh, hnotlow]

/-- A plain text stands as it is between quotes. -/
theorem quoteBody_of_isPlain {s : JsString} (h : IsPlain s) : quoteBody s = s := by
  induction s with
  | nil => rfl
  | cons u s ih =>
    obtain ⟨hlow, hhigh, hquote, hslash⟩ := h u List.mem_cons_self
    have hs := ih fun v hv => h v (List.mem_cons_of_mem _ hv)
    have hunit := escapeUnit_of_plain hlow hhigh hquote hslash
    cases s with
    | nil => exact hunit
    | cons v s =>
      rw [quoteBody, (not_surrogate_of_lt hhigh).1, Bool.false_and, if_neg Bool.false_ne_true, hs,
        hunit]
      rfl

end Js
