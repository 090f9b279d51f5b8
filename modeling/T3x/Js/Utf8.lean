import T3x.Js.Grammar

/-!
# Strings as bytes

`TextEncoder` and the fatal `TextDecoder`. Encoding replaces a lone surrogate;
decoding refuses what is not the shortest form of scalar values and drops a
leading byte order mark. A well-formed string decodes from its bytes, so these
determine it.
-/

namespace Js

/-- Whether a code point is a surrogate, which has no bytes of its own. -/
def isSurrogatePoint (p : ℕ) : Bool := 0xD800 ≤ p && p ≤ 0xDFFF

/-- The bytes of a scalar value. -/
def pointBytes (p : ℕ) : List UInt8 :=
  if p < 0x80 then [p.toUInt8]
  else if p < 0x800 then [(0xC0 + p / 64).toUInt8, (0x80 + p % 64).toUInt8]
  else if p < 0x10000 then
    [(0xE0 + p / 4096).toUInt8, (0x80 + p / 64 % 64).toUInt8, (0x80 + p % 64).toUInt8]
  else
    [(0xF0 + p / 262144).toUInt8, (0x80 + p / 4096 % 64).toUInt8, (0x80 + p / 64 % 64).toUInt8,
      (0x80 + p % 64).toUInt8]

/-- `textEncoder.encode(s)`. -/
def encodeUtf8 (s : JsString) : List UInt8 :=
  (codePoints s).flatMap fun p => pointBytes (if isSurrogatePoint p then 0xFFFD else p)

/-- The six bits of a continuation byte. -/
def tailBits (b : UInt8) : Option ℕ :=
  if 0x80 ≤ b.toNat ∧ b.toNat < 0xC0 then some (b.toNat - 0x80) else none

/-- The scalar value of two bytes in their shortest form. -/
def twoBytes (a b : UInt8) : Option ℕ :=
  match tailBits b with
  | some y => if 0x80 ≤ (a.toNat - 0xC0) * 64 + y then some ((a.toNat - 0xC0) * 64 + y) else none
  | none => none

/-- The scalar value of three bytes in their shortest form. -/
def threeBytes (a b c : UInt8) : Option ℕ :=
  match tailBits b, tailBits c with
  | some y, some z =>
    let p := (a.toNat - 0xE0) * 4096 + y * 64 + z
    if 0x800 ≤ p ∧ isSurrogatePoint p = false then some p else none
  | _, _ => none

/-- The scalar value of four bytes in their shortest form. -/
def fourBytes (a b c d : UInt8) : Option ℕ :=
  match tailBits b, tailBits c, tailBits d with
  | some x, some y, some z =>
    let p := (a.toNat - 0xF0) * 262144 + x * 4096 + y * 64 + z
    if 0x10000 ≤ p ∧ p < 0x110000 then some p else none
  | _, _, _ => none

/-- Put a scalar value in front of those that follow, if both are there. -/
def consPoint (p : Option ℕ) (points : Option (List ℕ)) : Option (List ℕ) :=
  match p, points with
  | some p, some points => some (p :: points)
  | _, _ => none

/-- The scalar values of bytes; `none` where a fatal decoder throws. -/
def decodePoints : List UInt8 → Option (List ℕ)
  | [] => some []
  | a :: bytes =>
    if a.toNat < 0x80 then consPoint (some a.toNat) (decodePoints bytes)
    else if a.toNat < 0xC0 then none
    else if a.toNat < 0xE0 then
      match bytes with
      | b :: rest => consPoint (twoBytes a b) (decodePoints rest)
      | [] => none
    else if a.toNat < 0xF0 then
      match bytes with
      | b :: c :: rest => consPoint (threeBytes a b c) (decodePoints rest)
      | _ => none
    else if a.toNat < 0xF8 then
      match bytes with
      | b :: c :: d :: rest => consPoint (fourBytes a b c d) (decodePoints rest)
      | _ => none
    else none

/-- A decoder drops a byte order mark in front. -/
def dropMark : List ℕ → List ℕ
  | [] => []
  | p :: points => if p = 0xFEFF then points else p :: points

/-- `textDecoder.decode(bytes)` of a fatal decoder; `none` where it throws. -/
def decodeUtf8 (bytes : List UInt8) : Option JsString :=
  (decodePoints bytes).map fun points => (dropMark points).flatMap pointUnits

/-- A small number as a byte. -/
theorem toNat_toUInt8 {n : ℕ} (h : n < 256) : n.toUInt8.toNat = n := by
  rw [Nat.toUInt8, UInt8.toNat_ofNat']
  omega

/-- A continuation byte has its bits. -/
theorem tailBits_tail {y : ℕ} (h : y < 64) : tailBits (0x80 + y).toUInt8 = some y := by
  have hbyte : (0x80 + y).toUInt8.toNat = 0x80 + y := toNat_toUInt8 (by omega)
  rw [tailBits, hbyte, if_pos ⟨by omega, by omega⟩, Nat.add_sub_cancel_left]

/-- The bytes of a scalar value decode to it. -/
theorem decodePoints_pointBytes {p : ℕ} (hp : p < 0x110000) (hscalar : isSurrogatePoint p = false)
    (bytes : List UInt8) :
    decodePoints (pointBytes p ++ bytes) = consPoint (some p) (decodePoints bytes) := by
  unfold pointBytes
  split_ifs with h1 h2 h3
  · rw [List.cons_append, List.nil_append, decodePoints.eq_def]
    simp only [toNat_toUInt8 (show p < 256 by omega), if_pos h1]
  · have ha : (0xC0 + p / 64).toUInt8.toNat = 0xC0 + p / 64 := toNat_toUInt8 (by omega)
    simp only [List.cons_append, List.nil_append]
    rw [decodePoints.eq_def]
    simp only [ha]
    rw [if_neg (by omega), if_neg (by omega), if_pos (by omega), twoBytes,
      tailBits_tail (Nat.mod_lt _ (by omega))]
    simp only [ha]
    have hvalue : (0xC0 + p / 64 - 0xC0) * 64 + p % 64 = p := by omega
    rw [hvalue, if_pos (by omega)]
  · have ha : (0xE0 + p / 4096).toUInt8.toNat = 0xE0 + p / 4096 := toNat_toUInt8 (by omega)
    simp only [List.cons_append, List.nil_append]
    rw [decodePoints.eq_def]
    simp only [ha]
    rw [if_neg (by omega), if_neg (by omega), if_neg (by omega), if_pos (by omega), threeBytes,
      tailBits_tail (Nat.mod_lt _ (by omega)), tailBits_tail (Nat.mod_lt _ (by omega))]
    simp only [ha]
    have hvalue : (0xE0 + p / 4096 - 0xE0) * 4096 + p / 64 % 64 * 64 + p % 64 = p := by omega
    rw [hvalue, if_pos ⟨by omega, hscalar⟩]
  · have ha : (0xF0 + p / 262144).toUInt8.toNat = 0xF0 + p / 262144 := toNat_toUInt8 (by omega)
    simp only [List.cons_append, List.nil_append]
    rw [decodePoints.eq_def]
    simp only [ha]
    rw [if_neg (by omega), if_neg (by omega), if_neg (by omega), if_neg (by omega),
      if_pos (by omega), fourBytes, tailBits_tail (Nat.mod_lt _ (by omega)),
      tailBits_tail (Nat.mod_lt _ (by omega)), tailBits_tail (Nat.mod_lt _ (by omega))]
    simp only [ha]
    have hvalue : (0xF0 + p / 262144 - 0xF0) * 262144 + p / 4096 % 64 * 4096 + p / 64 % 64 * 64 +
        p % 64 = p := by omega
    rw [hvalue, if_pos ⟨by omega, hp⟩]

/-- The code points of a well-formed string are scalar values. -/
theorem scalar_of_mem_codePoints {s : JsString} (h : isWellFormed s = true) :
    ∀ p ∈ codePoints s, p < 0x110000 ∧ isSurrogatePoint p = false := by
  have hplain : ∀ u : UInt16, isHighSurrogate u = false → isLowSurrogate u = false →
      u.toNat < 0x110000 ∧ isSurrogatePoint u.toNat = false := by
    intro u hhigh hlow
    have hu : u.toNat < 0x10000 := u.toNat_lt
    refine ⟨by omega, ?_⟩
    have h1 : (0xD800 : UInt16).toNat = 0xD800 := rfl
    have h2 : (0xDBFF : UInt16).toNat = 0xDBFF := rfl
    have h3 : (0xDC00 : UInt16).toNat = 0xDC00 := rfl
    have h4 : (0xDFFF : UInt16).toNat = 0xDFFF := rfl
    simp only [isHighSurrogate, isLowSurrogate, isSurrogatePoint, Bool.and_eq_false_iff,
      decide_eq_false_iff_not, UInt16.le_iff_toNat_le, h1, h2, h3, h4] at hhigh hlow ⊢
    omega
  induction s using codePoints.induct with
  | case1 => simp [codePoints]
  | case2 u =>
    simp only [isWellFormed, Bool.and_eq_true, Bool.not_eq_true'] at h
    simpa [codePoints] using hplain u h.1 h.2
  | case3 u v s hpair ih =>
    rw [codePoints, if_pos hpair, List.forall_mem_cons]
    simp only [Bool.and_eq_true] at hpair
    rw [isWellFormed, if_pos hpair.1, Bool.and_eq_true] at h
    refine ⟨?_, ih h.2⟩
    have hbounds : (0xD800 ≤ u.toNat ∧ u.toNat ≤ 0xDBFF) ∧
        0xDC00 ≤ v.toNat ∧ v.toNat ≤ 0xDFFF := by
      simp only [isHighSurrogate, isLowSurrogate, Bool.and_eq_true, decide_eq_true_eq,
        UInt16.le_iff_toNat_le] at hpair
      exact hpair
    refine ⟨by omega, ?_⟩
    simp only [isSurrogatePoint, Bool.and_eq_false_iff, decide_eq_false_iff_not]
    omega
  | case4 u v s hpair ih =>
    rw [codePoints, if_neg hpair, List.forall_mem_cons]
    rw [isWellFormed] at h
    split_ifs at h with hhigh
    · simp only [Bool.and_eq_true] at h
      exact absurd (by simp [hhigh, h.1]) hpair
    · simp only [Bool.and_eq_true, Bool.not_eq_true'] at h
      exact ⟨hplain u (by simpa using hhigh) h.1, ih h.2⟩

/-- The bytes of a well-formed string decode to its code points. -/
theorem decodePoints_encodeUtf8 {s : JsString} (h : isWellFormed s = true) :
    decodePoints (encodeUtf8 s) = some (codePoints s) := by
  have hscalar := scalar_of_mem_codePoints h
  unfold encodeUtf8
  generalize codePoints s = points at hscalar
  induction points with
  | nil => rfl
  | cons p points ih =>
    obtain ⟨⟨hp, hnot⟩, hrest⟩ := List.forall_mem_cons.mp hscalar
    rw [List.flatMap_cons, hnot, if_neg Bool.false_ne_true, decodePoints_pointBytes hp hnot,
      ih hrest]
    rfl

/-- A well-formed string without a byte order mark decodes from its bytes. -/
theorem decodeUtf8_encodeUtf8 {s : JsString} (h : isWellFormed s = true)
    (hmark : s.head? ≠ some 0xFEFF) : decodeUtf8 (encodeUtf8 s) = some s := by
  have hdrop : dropMark (codePoints s) = codePoints s := by
    induction s using codePoints.induct with
    | case1 => rfl
    | case2 u =>
      rw [codePoints, dropMark, if_neg]
      intro hu
      exact hmark (congrArg some (UInt16.toNat_inj.mp hu))
    | case3 u v s hpair _ =>
      rw [codePoints, if_pos hpair, dropMark, if_neg (by omega)]
    | case4 u v s hpair _ =>
      rw [codePoints, if_neg hpair, dropMark, if_neg]
      intro hu
      exact hmark (congrArg some (UInt16.toNat_inj.mp hu))
  rw [decodeUtf8, decodePoints_encodeUtf8 h, Option.map_some, hdrop,
    flatMap_pointUnits_codePoints]

/-- The bytes of a well-formed string determine it. -/
theorem encodeUtf8_inj {s t : JsString} (hs : isWellFormed s = true) (ht : isWellFormed t = true)
    (h : encodeUtf8 s = encodeUtf8 t) : s = t := by
  have hpoints := decodePoints_encodeUtf8 hs
  rw [h, decodePoints_encodeUtf8 ht, Option.some.injEq] at hpoints
  rw [← flatMap_pointUnits_codePoints s, ← hpoints, flatMap_pointUnits_codePoints]

/-! ## Printed texts are well formed -/

/-- Well-formed strings stay well formed behind one another. -/
theorem isWellFormed_append {s t : JsString} (hs : isWellFormed s = true)
    (ht : isWellFormed t = true) : isWellFormed (s ++ t) = true := by
  induction s using isWellFormed.induct with
  | case1 => exact ht
  | case2 u =>
    simp only [isWellFormed, Bool.and_eq_true, Bool.not_eq_true'] at hs
    cases t with
    | nil => simp [isWellFormed, hs]
    | cons v t => simp [isWellFormed, hs, ht]
  | case3 u v s hhigh ih =>
    rw [isWellFormed, if_pos hhigh, Bool.and_eq_true] at hs
    rw [List.cons_append, List.cons_append, isWellFormed, if_pos hhigh, hs.1, ih hs.2]
    rfl
  | case4 u v s hhigh ih =>
    rw [isWellFormed, if_neg hhigh, Bool.and_eq_true] at hs
    rw [List.cons_append, List.cons_append, isWellFormed, if_neg hhigh, hs.1]
    exact ih hs.2

/-- A string without surrogates is well formed. -/
theorem isWellFormed_of_plain {s : JsString}
    (h : ∀ u ∈ s, isHighSurrogate u = false ∧ isLowSurrogate u = false) : isWellFormed s = true := by
  induction s with
  | nil => rfl
  | cons u s ih =>
    obtain ⟨hu, hs⟩ := List.forall_mem_cons.mp h
    have hone : isWellFormed [u] = true := by simp [isWellFormed, hu]
    exact isWellFormed_append hone (ih hs)

/-- A printed code unit is well formed. -/
theorem isWellFormed_escapeUnit (u : UInt16) : isWellFormed (escapeUnit u) = true := by
  have hhex : ∀ d < 16, isHighSurrogate (hexDigit d) = false ∧ isLowSurrogate (hexDigit d) = false := by
    intro d hd
    interval_cases d <;> exact ⟨rfl, rfl⟩
  unfold escapeUnit
  cases hfind : shortEscapes.find? (fun e => e.1 == u) with
  | some e =>
    have hall : (shortEscapes.all fun e => isWellFormed [unit '\\', e.2]) = true := by decide
    exact List.all_eq_true.mp hall e (List.mem_of_find?_eq_some hfind)
  | none =>
    have hu : u.toNat < 65536 := u.toNat_lt
    simp only
    split_ifs with hplain
    · refine isWellFormed_of_plain fun v hv => ?_
      simp only [hexEscape, List.mem_cons, List.not_mem_nil, or_false] at hv
      rcases hv with rfl | rfl | rfl | rfl | rfl | rfl
      · exact ⟨rfl, rfl⟩
      · exact ⟨rfl, rfl⟩
      · exact hhex _ (by omega)
      · exact hhex _ (by omega)
      · exact hhex _ (by omega)
      · exact hhex _ (by omega)
    · simp only [Bool.or_eq_true, not_or, Bool.not_eq_true] at hplain
      simp [isWellFormed, hplain.1.2, hplain.2]

/-- A printed string is well formed. -/
theorem isWellFormed_quote (s : JsString) : isWellFormed (quote s) = true := by
  have hbody : isWellFormed (quoteBody s) = true := by
    induction s using quoteBody.induct with
    | case1 => rfl
    | case2 u => exact isWellFormed_escapeUnit u
    | case3 u v s hpair ih =>
      rw [quoteBody, if_pos hpair]
      simp only [Bool.and_eq_true] at hpair
      rw [isWellFormed, if_pos hpair.1, hpair.2, ih]
      rfl
    | case4 u v s hpair ih =>
      rw [quoteBody, if_neg hpair]
      exact isWellFormed_append (isWellFormed_escapeUnit u) ih
  exact isWellFormed_append (s := [unit '"']) rfl (isWellFormed_append hbody rfl)

/-- Well-formed parts join to a well-formed string. -/
theorem isWellFormed_join {sep : UInt16} (hsep : isWellFormed [sep] = true)
    {parts : List JsString} (h : ∀ part ∈ parts, isWellFormed part = true) :
    isWellFormed (join sep parts) = true := by
  induction parts with
  | nil => rfl
  | cons part parts ih =>
    obtain ⟨hpart, hparts⟩ := List.forall_mem_cons.mp h
    cases parts with
    | nil => rwa [join_singleton]
    | cons part' parts =>
      rw [join_cons_cons]
      exact isWellFormed_append hpart (isWellFormed_append hsep (ih hparts))

/-- A unit of a number is no surrogate. -/
theorem not_surrogate_of_isNumberUnit {u : UInt16} (h : isNumberUnit u = true) :
    isHighSurrogate u = false ∧ isLowSurrogate u = false := by
  simp only [isNumberUnit, Bool.or_eq_true, beq_iff_eq] at h
  rcases h with (((h | rfl) | rfl) | rfl) | rfl
  · have h57 : (57 : UInt16).toNat = 57 := rfl
    have h1 : (0xD800 : UInt16).toNat = 0xD800 := rfl
    have h2 : (0xDC00 : UInt16).toNat = 0xDC00 := rfl
    simp only [isDigit, isHighSurrogate, isLowSurrogate, Bool.and_eq_true, Bool.and_eq_false_iff,
      decide_eq_true_eq, decide_eq_false_iff_not, UInt16.le_iff_toNat_le, h57, h1, h2] at h ⊢
    omega
  all_goals exact ⟨rfl, rfl⟩

/-- The text that prints a value is well formed. -/
theorem JsValue.isWellFormed_encode {arrange : Record JsString → Record JsString}
    (harr : ∀ m, (arrange m).Perm (Record.entries m)) (v : JsValue) :
    isWellFormed (v.encode arrange) = true := by
  induction v using JsValue.induct with
  | null => rfl
  | bool b => cases b <;> rfl
  | num n =>
    exact isWellFormed_of_plain fun u hu =>
      not_surrogate_of_isNumberUnit (isNumberUnit_of_mem_toText hu)
  | str s => exact isWellFormed_quote s
  | arr items ih =>
    rw [encode_arr]
    refine isWellFormed_append (s := [unit '[']) rfl (isWellFormed_append
      (isWellFormed_join rfl fun part hpart => ?_) rfl)
    obtain ⟨v, hv, rfl⟩ := List.mem_map.mp hpart
    exact ih v hv
  | obj m ih =>
    rw [encode_obj]
    refine isWellFormed_append (s := [unit '\x7b']) rfl (isWellFormed_append
      (isWellFormed_join rfl fun part hpart => ?_) rfl)
    obtain ⟨e, he, rfl⟩ := List.mem_map.mp hpart
    obtain ⟨v, hv, htext⟩ := mem_arranged harr he
    refine isWellFormed_append (isWellFormed_quote _) (isWellFormed_append (s := [unit ':']) rfl ?_)
    rw [htext]
    exact ih _ (Record.mem_of_get hv)

end Js
