import T3x.Js.Utf8

/-!
# Buffers

The texts of bytes: the base64 text for URLs, and the text that bytes decode to
with a replacement character for every part that is no scalar value. Both give
back what they were made of.
-/

namespace Js

/-! ## Base64 for URLs -/

/-- The digit of six bits. -/
def base64Digit (n : ℕ) : UInt16 :=
  if n < 26 then (65 + n).toUInt16
  else if n < 52 then (71 + n).toUInt16
  else if n < 62 then (n - 4).toUInt16
  else if n = 62 then unit '-'
  else unit '_'

/-- The six bits of a digit, of either alphabet. -/
def base64Value (u : UInt16) : Option ℕ :=
  if 65 ≤ u.toNat ∧ u.toNat ≤ 90 then some (u.toNat - 65)
  else if 97 ≤ u.toNat ∧ u.toNat ≤ 122 then some (u.toNat - 71)
  else if 48 ≤ u.toNat ∧ u.toNat ≤ 57 then some (u.toNat + 4)
  else if u = unit '-' ∨ u = unit '+' then some 62
  else if u = unit '_' ∨ u = unit '/' then some 63
  else none

/-- `buffer.toString('base64url')`. -/
def encodeBase64url : List UInt8 → JsString
  | a :: b :: c :: bytes =>
    base64Digit (a.toNat / 4) :: base64Digit (a.toNat % 4 * 16 + b.toNat / 16) ::
      base64Digit (b.toNat % 16 * 4 + c.toNat / 64) :: base64Digit (c.toNat % 64) ::
        encodeBase64url bytes
  | [a, b] =>
    [base64Digit (a.toNat / 4), base64Digit (a.toNat % 4 * 16 + b.toNat / 16),
      base64Digit (b.toNat % 16 * 4)]
  | [a] => [base64Digit (a.toNat / 4), base64Digit (a.toNat % 4 * 16)]
  | [] => []

/-- The bytes of groups of six bits. -/
def base64Bytes : List ℕ → List UInt8
  | a :: b :: c :: d :: values =>
    (a * 4 + b / 16).toUInt8 :: (b % 16 * 16 + c / 4).toUInt8 :: (c % 4 * 64 + d).toUInt8 ::
      base64Bytes values
  | [a, b, c] => [(a * 4 + b / 16).toUInt8, (b % 16 * 16 + c / 4).toUInt8]
  | [a, b] => [(a * 4 + b / 16).toUInt8]
  | _ => []

/-- `Buffer.from(s, 'base64url')`: what is no digit is passed over. -/
def decodeBase64url (s : JsString) : List UInt8 := base64Bytes (s.filterMap base64Value)

/-- A digit has its bits. -/
theorem base64Value_base64Digit {n : ℕ} (hn : n < 64) : base64Value (base64Digit n) = some n := by
  interval_cases n <;> rfl

/-- The bits of a byte. -/
theorem toUInt8_toNat (a : UInt8) : a.toNat.toUInt8 = a := UInt8.ofNat_toNat

/-- Bytes are read back from their text. -/
theorem decodeBase64url_encodeBase64url (bytes : List UInt8) :
    decodeBase64url (encodeBase64url bytes) = bytes := by
  unfold decodeBase64url
  induction bytes using encodeBase64url.induct with
  | case1 a b c bytes ih =>
    have ha := a.toNat_lt
    have hb := b.toNat_lt
    have hc := c.toNat_lt
    rw [encodeBase64url, List.filterMap_cons_some (base64Value_base64Digit (by omega)),
      List.filterMap_cons_some (base64Value_base64Digit (by omega)),
      List.filterMap_cons_some (base64Value_base64Digit (by omega)),
      List.filterMap_cons_some (base64Value_base64Digit (by omega)), base64Bytes, ih]
    rw [show a.toNat / 4 * 4 + (a.toNat % 4 * 16 + b.toNat / 16) / 16 = a.toNat by omega,
      show (a.toNat % 4 * 16 + b.toNat / 16) % 16 * 16 + (b.toNat % 16 * 4 + c.toNat / 64) / 4 =
        b.toNat by omega,
      show (b.toNat % 16 * 4 + c.toNat / 64) % 4 * 64 + c.toNat % 64 = c.toNat by omega,
      toUInt8_toNat, toUInt8_toNat, toUInt8_toNat]
  | case2 a b =>
    have ha := a.toNat_lt
    have hb := b.toNat_lt
    rw [encodeBase64url, List.filterMap_cons_some (base64Value_base64Digit (by omega)),
      List.filterMap_cons_some (base64Value_base64Digit (by omega)),
      List.filterMap_cons_some (base64Value_base64Digit (by omega)), List.filterMap_nil,
      base64Bytes]
    rw [show a.toNat / 4 * 4 + (a.toNat % 4 * 16 + b.toNat / 16) / 16 = a.toNat by omega,
      show (a.toNat % 4 * 16 + b.toNat / 16) % 16 * 16 + b.toNat % 16 * 4 / 4 = b.toNat by omega,
      toUInt8_toNat, toUInt8_toNat]
  | case3 a =>
    have ha := a.toNat_lt
    rw [encodeBase64url, List.filterMap_cons_some (base64Value_base64Digit (by omega)),
      List.filterMap_cons_some (base64Value_base64Digit (by omega)), List.filterMap_nil,
      base64Bytes]
    rw [show a.toNat / 4 * 4 + a.toNat % 4 * 16 / 16 = a.toNat by omega, toUInt8_toNat]
  | case4 => rfl

/-- Only no bytes have the empty text. -/
theorem encodeBase64url_ne_nil {bytes : List UInt8} (h : bytes ≠ []) : encodeBase64url bytes ≠ [] := by
  intro hnil
  apply h
  rw [← decodeBase64url_encodeBase64url bytes, hnil]
  rfl

/-! ## Decoding with replacement -/

/-- The scalar value that a lead byte begins, and the bytes behind it. -/
def leadPoint (a : UInt8) (bytes : List UInt8) : Option (ℕ × List UInt8) :=
  if a.toNat < 0x80 then some (a.toNat, bytes)
  else if a.toNat < 0xC0 then none
  else if a.toNat < 0xE0 then
    match bytes with
    | b :: rest => (twoBytes a b).map fun p => (p, rest)
    | [] => none
  else if a.toNat < 0xF0 then
    match bytes with
    | b :: c :: rest => (threeBytes a b c).map fun p => (p, rest)
    | _ => none
  else if a.toNat < 0xF8 then
    match bytes with
    | b :: c :: d :: rest => (fourBytes a b c d).map fun p => (p, rest)
    | _ => none
  else none

/-- Whether a byte may follow a lead byte of three or four. -/
def mayFollow (a b : UInt8) : Bool :=
  let b := b.toNat
  if a = 0xE0 then 0xA0 ≤ b && b < 0xC0
  else if a = 0xED then 0x80 ≤ b && b < 0xA0
  else if a = 0xF0 then 0x90 ≤ b && b < 0xC0
  else if a = 0xF4 then 0x80 ≤ b && b < 0x90
  else 0xE0 ≤ a.toNat && a.toNat < 0xF4 && 0x80 ≤ b && b < 0xC0

/-- How many bytes behind a lead byte are part of the value that breaks off. -/
def brokenTail (a : UInt8) : List UInt8 → ℕ
  | [] => 0
  | [b] => if mayFollow a b then 1 else 0
  | b :: c :: _ =>
    if mayFollow a b then if 0xF0 ≤ a.toNat ∧ (tailBits c).isSome then 2 else 1 else 0

/-- The scalar values of bytes, with a replacement for what is none. -/
def lossyPoints : ℕ → List UInt8 → List ℕ
  | fuel + 1, a :: bytes =>
    match leadPoint a bytes with
    | some (p, rest) => p :: lossyPoints fuel rest
    | none => 0xFFFD :: lossyPoints fuel (bytes.drop (brokenTail a bytes))
  | _, _ => []

/-- `buffer.toString()`. -/
def bufferText (bytes : List UInt8) : JsString :=
  (lossyPoints bytes.length bytes).flatMap pointUnits

/-- Bytes decode by their lead byte. -/
theorem decodePoints_cons (a : UInt8) (bytes : List UInt8) : decodePoints (a :: bytes) =
    match leadPoint a bytes with
    | some (p, rest) => consPoint (some p) (decodePoints rest)
    | none => none := by
  rw [decodePoints.eq_def]
  unfold leadPoint
  dsimp only
  split_ifs
  · rfl
  · rfl
  · rcases bytes with _ | ⟨b, rest⟩
    · rfl
    · cases htwo : twoBytes a b <;> simp [consPoint, htwo]
  · rcases bytes with _ | ⟨b, _ | ⟨c, rest⟩⟩
    · rfl
    · rfl
    · cases hthree : threeBytes a b c <;> simp [consPoint, hthree]
  · rcases bytes with _ | ⟨b, _ | ⟨c, _ | ⟨d, rest⟩⟩⟩
    · rfl
    · rfl
    · rfl
    · cases hfour : fourBytes a b c d <;> simp [consPoint, hfour]
  · rfl

/-- The bytes behind a scalar value are fewer. -/
theorem length_of_leadPoint {a : UInt8} {bytes rest : List UInt8} {p : ℕ}
    (h : leadPoint a bytes = some (p, rest)) : rest.length ≤ bytes.length := by
  unfold leadPoint at h
  split_ifs at h
  · cases h
    exact le_rfl
  · match bytes, h with
    | b :: rest', h =>
      obtain ⟨_, -, heq⟩ := Option.map_eq_some_iff.mp h
      cases heq
      simp
  · match bytes, h with
    | b :: c :: rest', h =>
      obtain ⟨_, -, heq⟩ := Option.map_eq_some_iff.mp h
      cases heq
      simp
      omega
  · match bytes, h with
    | b :: c :: d :: rest', h =>
      obtain ⟨_, -, heq⟩ := Option.map_eq_some_iff.mp h
      cases heq
      simp
      omega

/-- Bytes without broken parts decode without replacements. -/
theorem lossyPoints_eq {fuel : ℕ} {bytes : List UInt8} {points : List ℕ}
    (h : decodePoints bytes = some points) (hfuel : bytes.length ≤ fuel) :
    lossyPoints fuel bytes = points := by
  induction fuel generalizing bytes points with
  | zero =>
    obtain rfl := List.length_eq_zero_iff.mp (Nat.le_zero.mp hfuel)
    exact Option.some.inj h
  | succ fuel ih =>
    cases bytes with
    | nil => exact Option.some.inj h
    | cons a bytes =>
      rw [decodePoints_cons] at h
      rw [lossyPoints]
      cases hlead : leadPoint a bytes with
      | none =>
        rw [hlead] at h
        cases h
      | some found =>
        obtain ⟨p, rest⟩ := found
        rw [hlead] at h
        dsimp only at h ⊢
        have hlength := length_of_leadPoint hlead
        rw [List.length_cons] at hfuel
        cases hrest : decodePoints rest with
        | none =>
          rw [hrest] at h
          cases h
        | some others =>
          rw [hrest] at h
          rw [ih hrest (by omega)]
          exact Option.some.inj h

/-- A well-formed string is read back from its bytes. -/
theorem bufferText_encodeUtf8 {s : JsString} (h : isWellFormed s = true) :
    bufferText (encodeUtf8 s) = s := by
  unfold bufferText
  rw [lossyPoints_eq (decodePoints_encodeUtf8 h) le_rfl, flatMap_pointUnits_codePoints]

end Js
