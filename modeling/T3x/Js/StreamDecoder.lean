import T3x.Js.Buffer

/-!
# Decoding a stream of bytes

A fatal `TextDecoder` that keeps a byte order mark in front and is given the
bytes part by part. It holds the bytes of a character that is not complete yet,
so that it does not matter how the bytes fall into parts: at the end it has
decoded what a decoder of all the bytes would.
-/

namespace Js

/-! ## Characters that break off -/

/-- Whether the bytes behind a lead byte are a part, but not the whole, of what may follow it. -/
def breaksOff (a : UInt8) (bytes : List UInt8) : Bool :=
  0xC2 ≤ a.toNat && a.toNat ≤ 0xF4 && brokenTail a bytes == bytes.length

/-- Which bytes may follow a lead byte of three or four. -/
theorem mayFollow_eq_true_iff {a b : UInt8} : mayFollow a b = true ↔
    0x80 ≤ b.toNat ∧ b.toNat < 0xC0 ∧ 0xE0 ≤ a.toNat ∧ a.toNat ≤ 0xF4 ∧
      (a.toNat = 0xE0 → 0xA0 ≤ b.toNat) ∧ (a.toNat = 0xED → b.toNat < 0xA0) ∧
      (a.toNat = 0xF0 → 0x90 ≤ b.toNat) ∧ (a.toNat = 0xF4 → b.toNat < 0x90) := by
  have hE0 : a = 0xE0 ↔ a.toNat = 0xE0 := UInt8.toNat_inj.symm
  have hED : a = 0xED ↔ a.toNat = 0xED := UInt8.toNat_inj.symm
  have hF0 : a = 0xF0 ↔ a.toNat = 0xF0 := UInt8.toNat_inj.symm
  have hF4 : a = 0xF4 ↔ a.toNat = 0xF4 := UInt8.toNat_inj.symm
  simp only [mayFollow, hE0, hED, hF0, hF4]
  split_ifs <;> simp only [Bool.and_eq_true, decide_eq_true_eq] <;> omega

/-- A continuation byte. -/
theorem tailBits_eq_some_iff {b : UInt8} {y : ℕ} :
    tailBits b = some y ↔ 0x80 ≤ b.toNat ∧ b.toNat < 0xC0 ∧ b.toNat - 0x80 = y := by
  simp [tailBits, and_assoc]

/-- In a character of two bytes the first is in range. -/
theorem lead_of_twoBytes {a b : UInt8} {p : ℕ} (hhigh : a.toNat < 0xE0)
    (h : twoBytes a b = some p) : 0xC2 ≤ a.toNat := by
  unfold twoBytes at h
  cases hb : tailBits b with
  | none => simp [hb] at h
  | some y =>
    simp only [hb] at h
    split_ifs at h with hform
    obtain ⟨hlow, hhigh, rfl⟩ := tailBits_eq_some_iff.mp hb
    omega

/-- In a character of three bytes the second may follow the first. -/
theorem mayFollow_of_threeBytes {a b c : UInt8} {p : ℕ} (hlow : 0xE0 ≤ a.toNat)
    (hhigh : a.toNat < 0xF0) (h : threeBytes a b c = some p) : mayFollow a b = true := by
  unfold threeBytes at h
  cases hb : tailBits b with
  | none => simp [hb] at h
  | some y =>
    cases hc : tailBits c with
    | none => simp [hb, hc] at h
    | some z =>
      simp only [hb, hc, isSurrogatePoint, Bool.and_eq_false_iff, decide_eq_false_iff_not,
        not_le] at h
      split_ifs at h with hform
      obtain ⟨hb1, hb2, rfl⟩ := tailBits_eq_some_iff.mp hb
      obtain ⟨hc1, hc2, rfl⟩ := tailBits_eq_some_iff.mp hc
      rw [mayFollow_eq_true_iff]
      omega

/-- In a character of four bytes the second may follow the first, and the third goes on. -/
theorem mayFollow_of_fourBytes {a b c d : UInt8} {p : ℕ} (hlow : 0xF0 ≤ a.toNat)
    (h : fourBytes a b c d = some p) : mayFollow a b = true ∧ (tailBits c).isSome = true := by
  unfold fourBytes at h
  cases hb : tailBits b with
  | none => simp [hb] at h
  | some x =>
    cases hc : tailBits c with
    | none => simp [hb, hc] at h
    | some y =>
      cases hd : tailBits d with
      | none => simp [hb, hc, hd] at h
      | some z =>
        simp only [hb, hc, hd] at h
        split_ifs at h with hform
        obtain ⟨hb1, hb2, rfl⟩ := tailBits_eq_some_iff.mp hb
        obtain ⟨hc1, hc2, rfl⟩ := tailBits_eq_some_iff.mp hc
        obtain ⟨hd1, hd2, rfl⟩ := tailBits_eq_some_iff.mp hd
        rw [mayFollow_eq_true_iff]
        exact ⟨by omega, rfl⟩

/-- A character that is there stays there when more bytes follow. -/
theorem leadPoint_append {a : UInt8} {bytes rest : List UInt8} {p : ℕ}
    (h : leadPoint a bytes = some (p, rest)) (more : List UInt8) :
    leadPoint a (bytes ++ more) = some (p, rest ++ more) := by
  unfold leadPoint at h ⊢
  split_ifs at h ⊢
  · cases h
    rfl
  · match bytes, h with
    | b :: bytes, h =>
      obtain ⟨q, hq, heq⟩ := Option.map_eq_some_iff.mp h
      cases heq
      simp [hq]
  · match bytes, h with
    | b :: c :: bytes, h =>
      obtain ⟨q, hq, heq⟩ := Option.map_eq_some_iff.mp h
      cases heq
      simp [hq]
  · match bytes, h with
    | b :: c :: d :: bytes, h =>
      obtain ⟨q, hq, heq⟩ := Option.map_eq_some_iff.mp h
      cases heq
      simp [hq]

/-- Which bytes break off. -/
theorem breaksOff_eq_true_iff {a : UInt8} {bytes : List UInt8} : breaksOff a bytes = true ↔
    (0xC2 ≤ a.toNat ∧ a.toNat ≤ 0xF4 ∧ bytes = []) ∨ (∃ b, bytes = [b] ∧ mayFollow a b = true) ∨
      ∃ b c, bytes = [b, c] ∧ 0xF0 ≤ a.toNat ∧ mayFollow a b = true ∧ (tailBits c).isSome = true := by
  have hrange : ∀ b, mayFollow a b = true → 0xC2 ≤ a.toNat ∧ a.toNat ≤ 0xF4 := fun b h => by
    have h := mayFollow_eq_true_iff.mp h
    omega
  simp only [breaksOff, Bool.and_eq_true, decide_eq_true_eq, beq_iff_eq, and_assoc]
  match bytes with
  | [] => simp [brokenTail]
  | [b] =>
    simp only [brokenTail, List.length_singleton]
    by_cases h : mayFollow a b = true
    · simp [h, hrange b h]
    · simp [h]
  | [b, c] =>
    simp only [brokenTail, List.length_cons, List.length_nil]
    by_cases h : mayFollow a b = true
    · by_cases hfour : 0xF0 ≤ a.toNat ∧ (tailBits c).isSome = true
      · simp [h, hfour, hrange b h]
      · simp only [h, hfour, if_true, if_false]
        have hnot : ¬ (0xF0 ≤ a.toNat ∧ True ∧ (tailBits c).isSome = true) := by simpa using hfour
        simpa [h] using hfour
    · simp [h]
  | b :: c :: d :: bytes =>
    have hle : brokenTail a (b :: c :: d :: bytes) ≤ 2 := by
      simp only [brokenTail]
      split_ifs <;> omega
    have hne : brokenTail a (b :: c :: d :: bytes) ≠ bytes.length + 1 + 1 + 1 := by omega
    simp [hne]

/-- What is no part of a character does not become one when more bytes follow. -/
theorem leadPoint_append_eq_none {a : UInt8} {bytes : List UInt8} (h : leadPoint a bytes = none)
    (hbreaks : breaksOff a bytes = false) (more : List UInt8) :
    leadPoint a (bytes ++ more) = none := by
  have hnot : ¬ breaksOff a bytes = true := by simp [hbreaks]
  rw [breaksOff_eq_true_iff] at hnot
  push Not at hnot
  obtain ⟨hnone, hone, htwo⟩ := hnot
  unfold leadPoint at h ⊢
  split_ifs at h ⊢ with h80 hC0 hE0 hF0 hF8
  · rfl
  · match bytes, h with
    | [], _ =>
      match more with
      | [] => rfl
      | b :: more =>
        refine Option.map_eq_none_iff.mpr (Option.eq_none_iff_forall_ne_some.mpr fun p hp => ?_)
        exact hnone (lead_of_twoBytes (by omega) hp) (by omega) rfl
    | b :: bytes, h => exact Option.map_eq_none_iff.mpr (Option.map_eq_none_iff.mp h)
  · match bytes, h with
    | [], _ => exact absurd rfl (hnone (by omega) (by omega))
    | [b], _ =>
      match more with
      | [] => rfl
      | c :: more =>
        refine Option.map_eq_none_iff.mpr (Option.eq_none_iff_forall_ne_some.mpr fun p hp => ?_)
        exact hone b rfl (mayFollow_of_threeBytes (by omega) hF0 hp)
    | b :: c :: bytes, h => exact Option.map_eq_none_iff.mpr (Option.map_eq_none_iff.mp h)
  · have hfour : ∀ b c d, fourBytes a b c d ≠ none →
        mayFollow a b = true ∧ (tailBits c).isSome = true := fun b c d hsome => by
      obtain ⟨p, hp⟩ := Option.ne_none_iff_exists'.mp hsome
      exact mayFollow_of_fourBytes (by omega) hp
    have hlead : ∀ b, mayFollow a b = true → 0xC2 ≤ a.toNat ∧ a.toNat ≤ 0xF4 := fun b hb => by
      have hb := mayFollow_eq_true_iff.mp hb
      omega
    match bytes, h with
    | [], _ =>
      match more with
      | [] | [_] | [_, _] => rfl
      | b :: c :: d :: more =>
        refine Option.map_eq_none_iff.mpr (by_contra fun hsome => ?_)
        obtain ⟨hlow, hhigh⟩ := hlead b (hfour b c d hsome).1
        exact hnone hlow hhigh rfl
    | [b], _ =>
      match more with
      | [] | [_] => rfl
      | c :: d :: more =>
        refine Option.map_eq_none_iff.mpr (by_contra fun hsome => ?_)
        exact hone b rfl (hfour b c d hsome).1
    | [b, c], _ =>
      match more with
      | [] => rfl
      | d :: more =>
        refine Option.map_eq_none_iff.mpr (by_contra fun hsome => ?_)
        obtain ⟨hfollow, htail⟩ := hfour b c d hsome
        rw [Option.isSome_iff_ne_none] at htail
        exact htwo b c rfl (by omega) hfollow (by simpa [Option.isSome_iff_ne_none] using htail)
    | b :: c :: d :: bytes, h => exact Option.map_eq_none_iff.mpr (Option.map_eq_none_iff.mp h)
  · rfl

/-- The byte that completes a character is its last. -/
theorem rest_eq_nil_of_leadPoint {a b : UInt8} {bytes rest : List UInt8} {p : ℕ}
    (hbreaks : breaksOff a bytes = true)
    (h : leadPoint a (bytes ++ [b]) = some (p, rest)) : rest = [] := by
  unfold leadPoint at h
  rcases breaksOff_eq_true_iff.mp hbreaks with ⟨hlow, hhigh, rfl⟩ | ⟨c, rfl, hfollow⟩ |
    ⟨c, d, rfl, hfour, -, -⟩
  · split_ifs at h
    · omega
    · obtain ⟨q, -, heq⟩ := Option.map_eq_some_iff.mp h
      exact (Prod.mk.inj heq).2.symm
    all_goals cases h
  · have hrange := mayFollow_eq_true_iff.mp hfollow
    split_ifs at h
    · omega
    · omega
    · obtain ⟨q, -, heq⟩ := Option.map_eq_some_iff.mp h
      exact (Prod.mk.inj heq).2.symm
    · cases h
  · split_ifs at h
    · omega
    · omega
    · omega
    · obtain ⟨q, -, heq⟩ := Option.map_eq_some_iff.mp h
      exact (Prod.mk.inj heq).2.symm

/-! ## The decoder -/

/-- What a decoder that holds some bytes makes of the next: the scalar values that it completes,
and the bytes that are held then; `none` where it throws. -/
def decodeByte (pending : List UInt8) (b : UInt8) : Option (List ℕ × List UInt8) :=
  match pending ++ [b] with
  | [] => some ([], [])
  | a :: bytes =>
    match leadPoint a bytes with
    | some (p, _) => some ([p], [])
    | none => if breaksOff a bytes = true then some ([], a :: bytes) else none

/-- `textDecoder.decode(bytes, { stream: true })`: the scalar values that are completed, and the
bytes that are held; `none` where it throws. -/
def decodeStream : List UInt8 → List UInt8 → Option (List ℕ × List UInt8)
  | pending, [] => some ([], pending)
  | pending, b :: bytes =>
    match decodeByte pending b with
    | none => none
    | some (points, held) => (decodeStream held bytes).map fun r => (points ++ r.1, r.2)

/-- Bytes that come in two parts are decoded one part after the other. -/
theorem decodeStream_append (pending bytes more : List UInt8) :
    decodeStream pending (bytes ++ more) =
      (decodeStream pending bytes).bind fun r =>
        (decodeStream r.2 more).map fun r' => (r.1 ++ r'.1, r'.2) := by
  induction bytes generalizing pending with
  | nil =>
    simp [decodeStream]
  | cons b bytes ih =>
    rw [List.cons_append, decodeStream, decodeStream]
    cases decodeByte pending b with
    | none => rfl
    | some found =>
      obtain ⟨points, held⟩ := found
      dsimp only
      rw [ih held]
      cases decodeStream held bytes with
      | none => rfl
      | some r => simp [Function.comp_def]

/-- A decoder holds nothing, or bytes that break off. -/
def Holds : List UInt8 → Prop
  | [] => True
  | a :: bytes => leadPoint a bytes = none ∧ breaksOff a bytes = true

/-- At the end of the stream nothing may be held: `textDecoder.decode()`. -/
def decodeEnd (r : List ℕ × List UInt8) : Option (List ℕ) := if r.2 = [] then some r.1 else none

/-- What a decoder completes up to the end of the stream is what a decoder of all the bytes finds
in them. -/
theorem decodeStream_end {pending : List UInt8} (h : Holds pending) (bytes : List UInt8) :
    (decodeStream pending bytes).bind decodeEnd = decodePoints (pending ++ bytes) := by
  induction bytes generalizing pending with
  | nil =>
    rw [List.append_nil]
    cases pending with
    | nil => rfl
    | cons a bytes =>
      rw [decodePoints_cons, h.1]
      rfl
  | cons b bytes ih =>
    rw [decodeStream]
    obtain ⟨a, front, hfront, hlast⟩ : ∃ a front, pending ++ [b] = a :: front ∧
        ∀ p rest, leadPoint a front = some (p, rest) → rest = [] := by
      cases pending with
      | nil =>
        refine ⟨b, [], rfl, fun p rest hlead => ?_⟩
        have hlength := length_of_leadPoint hlead
        exact List.length_eq_zero_iff.mp (Nat.le_zero.mp hlength)
      | cons a held => exact ⟨a, held ++ [b], rfl, fun p rest => rest_eq_nil_of_leadPoint h.2⟩
    have hall : pending ++ b :: bytes = a :: (front ++ bytes) := by
      rw [← List.cons_append, ← hfront, List.append_assoc]
      rfl
    rw [hall, decodePoints_cons, decodeByte, hfront]
    dsimp only
    cases hlead : leadPoint a front with
    | some found =>
      obtain ⟨p, rest⟩ := found
      obtain rfl := hlast p rest hlead
      have hnone : Holds [] := trivial
      have hrest := ih hnone
      rw [List.nil_append] at hrest
      rw [leadPoint_append hlead, List.nil_append]
      dsimp only
      rw [← hrest]
      cases decodeStream [] bytes with
      | none => rfl
      | some r =>
        simp only [Option.map_some, Option.bind_some, decodeEnd]
        split_ifs <;> rfl
    | none =>
      dsimp only
      by_cases hbreaks : breaksOff a front = true
      · rw [if_pos hbreaks]
        have hheld : Holds (a :: front) := ⟨hlead, hbreaks⟩
        have hrest := ih hheld
        rw [List.cons_append, decodePoints_cons] at hrest
        rw [← hrest]
        dsimp only
        cases decodeStream (a :: front) bytes <;> rfl
      · rw [if_neg hbreaks, leadPoint_append_eq_none hlead (Bool.eq_false_of_not_eq_true hbreaks)]
        rfl

end Js
