import T3x.Js.Json
import T3x.Js.NumberText
import T3x.Js.Search

/-!
# Texts of addresses

An address of version 4 is written as four numbers between dots. One of version 6
is written as eight hexadecimal groups between colons, where the first longest
run of at least two zero groups is left out. What a text begins with tells what
its first number or group is.
-/

namespace T3x.Network

open Js

/-! ## Addresses -/

/-- An address of version 4. -/
structure Ipv4 where
  /-- The four octets. -/
  octets : List UInt8
  /-- There are four. -/
  length_eq : octets.length = 4

/-- The address with four octets. -/
def Ipv4.of (a b c d : UInt8) : Ipv4 := ⟨[a, b, c, d], rfl⟩

/-- The address `a.b.c.d`. -/
theorem Ipv4.eq_of (address : Ipv4) : ∃ a b c d, address = .of a b c d := by
  obtain ⟨octets, hlength⟩ := address
  match octets, hlength with
  | [a, b, c, d], _ => exact ⟨a, b, c, d, rfl⟩

/-- An address of version 6. -/
structure Ipv6 where
  /-- The eight groups. -/
  groups : List UInt16
  /-- There are eight. -/
  length_eq : groups.length = 8

/-- The octets of two groups. -/
def embedded (high low : UInt16) : Ipv4 :=
  .of (high.toNat / 256).toUInt8 (high.toNat % 256).toUInt8 (low.toNat / 256).toUInt8
    (low.toNat % 256).toUInt8

/-- The address of version 4 in a mapped address, `::ffff:0:0/96`. -/
def Ipv6.mapped (address : Ipv6) : Option Ipv4 :=
  if address.groups.take 6 = [0, 0, 0, 0, 0, 0xffff] then
    match address.groups.drop 6 with
    | [high, low] => some (embedded high low)
    | _ => none
  else none

/-! ## Texts -/

/-- The text of an address of version 4. -/
def ipv4Text (address : Ipv4) : JsString :=
  join (unit '.') (address.octets.map fun octet => natToString octet.toNat)

/-- The shortest lowercase hexadecimal text of a group. -/
def hexText (group : UInt16) : JsString :=
  let n := group.toNat
  if n < 16 then [hexDigit n]
  else if n < 256 then [hexDigit (n / 16), hexDigit (n % 16)]
  else if n < 4096 then [hexDigit (n / 256), hexDigit (n / 16 % 16), hexDigit (n % 16)]
  else [hexDigit (n / 4096), hexDigit (n / 256 % 16), hexDigit (n / 16 % 16), hexDigit (n % 16)]

/-- The number of zero groups from a place on. -/
def zeroRun (groups : List UInt16) (i : ℕ) : ℕ := ((groups.drop i).takeWhile (· = 0)).length

/-- The place and the length of the first longest run of at least two zero groups. -/
def compressedRun (groups : List UInt16) : Option (ℕ × ℕ) :=
  let longest := (List.range groups.length).foldl
    (fun best i => if best.2 < zeroRun groups i then (i, zeroRun groups i) else best) (0, 1)
  if longest.2 < 2 then none else some longest

/-- The text of an address of version 6. -/
def ipv6Text (address : Ipv6) : JsString :=
  match compressedRun address.groups with
  | none => join (unit ':') (address.groups.map hexText)
  | some (start, length) =>
    join (unit ':') ((address.groups.take start).map hexText) ++ js "::" ++
      join (unit ':') ((address.groups.drop (start + length)).map hexText)

/-! ## Decimal texts -/

/-- Different numbers have different texts. -/
theorem natToString_inj {n n' : ℕ} : natToString n = natToString n' ↔ n = n' := by
  refine ⟨fun h => ?_, fun h => h ▸ rfl⟩
  rw [← digitsValue_natToString n, h, digitsValue_natToString]

/-- A decimal text is not empty. -/
theorem natToString_ne_nil (n : ℕ) : natToString n ≠ [] := decimalDigits_ne_nil n n

/-- A decimal text does not hold what is no digit. -/
theorem not_mem_natToString {n : ℕ} {u : UInt16} (h : isDigit u = false) : u ∉ natToString n :=
  not_mem_of_digits h fun _ => isDigit_of_mem_decimalDigits

/-- The text of an address of version 4, number by number. -/
theorem ipv4Text_of (a b c d : UInt8) : ipv4Text (.of a b c d) =
    natToString a.toNat ++ unit '.' :: (natToString b.toNat ++ unit '.' ::
      (natToString c.toNat ++ unit '.' :: natToString d.toNat)) := by
  simp only [ipv4Text, Ipv4.of, List.map_cons, List.map_nil, join_cons_cons, join_singleton]

/-! ## Hexadecimal texts -/

/-- The digits of a hexadecimal text. -/
theorem exists_of_mem_hexText {group : UInt16} {u : UInt16} (h : u ∈ hexText group) :
    ∃ d < 16, u = hexDigit d := by
  have hbound := group.toNat_lt
  unfold hexText at h
  dsimp only at h
  split_ifs at h <;> simp only [List.mem_cons, List.not_mem_nil, or_false] at h
  · exact ⟨_, by omega, h⟩
  · rcases h with rfl | rfl
    · exact ⟨_, by omega, rfl⟩
    · exact ⟨_, by omega, rfl⟩
  · rcases h with rfl | rfl | rfl
    · exact ⟨_, by omega, rfl⟩
    · exact ⟨_, by omega, rfl⟩
    · exact ⟨_, by omega, rfl⟩
  · rcases h with rfl | rfl | rfl | rfl
    · exact ⟨_, by omega, rfl⟩
    · exact ⟨_, by omega, rfl⟩
    · exact ⟨_, by omega, rfl⟩
    · exact ⟨_, by omega, rfl⟩

/-- A hexadecimal text does not hold what is no hexadecimal digit. -/
theorem not_mem_hexText {group u : UInt16} (h : ∀ d < 16, hexDigit d ≠ u) : u ∉ hexText group :=
  fun hmem => by
    obtain ⟨d, hd, rfl⟩ := exists_of_mem_hexText hmem
    exact h d hd rfl

/-- A hexadecimal text holds no colon. -/
theorem colon_not_mem_hexText (group : UInt16) : unit ':' ∉ hexText group :=
  not_mem_hexText (by decide)

/-- A hexadecimal text holds no dot. -/
theorem dot_not_mem_hexText (group : UInt16) : unit '.' ∉ hexText group :=
  not_mem_hexText (by decide)

/-- A hexadecimal text is not empty. -/
theorem hexText_ne_nil (group : UInt16) : hexText group ≠ [] := by
  unfold hexText
  dsimp only
  split_ifs <;> exact List.cons_ne_nil _ _

/-- Hexadecimal digits are different texts. -/
theorem hexDigit_inj {d e : ℕ} (hd : d < 16) (he : e < 16) : hexDigit d = hexDigit e ↔ d = e := by
  refine ⟨fun h => ?_, fun h => h ▸ rfl⟩
  rw [← hexValue_hexDigit hd, h, hexValue_hexDigit he]

end T3x.Network
