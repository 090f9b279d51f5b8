import T3x.Network.Ssrf

/-!
# What the texts of addresses begin with

A text of version 4 begins with a number and a dot exactly if that is its first
number. A text of version 6 begins with two colons if its first groups are left
out, and else with its first group and a colon. What a group's text begins with
is a matter of its leading digits, however many they are.
-/

namespace T3x.Network

open Js

/-! ## Beginnings -/

/-- A text does not start with one whose first code unit is another. -/
theorem startsWith_of_head_ne {s start : JsString} {u v : UInt16} (hs : s.head? = some u)
    (hstart : start.head? = some v) (hne : u ≠ v) : startsWith s start = false := by
  rw [Bool.eq_false_iff, Ne, startsWith_iff]
  obtain ⟨s', rfl⟩ := List.head?_eq_some_iff.mp hs
  obtain ⟨start', rfl⟩ := List.head?_eq_some_iff.mp hstart
  intro h
  exact hne (List.cons_prefix_cons.mp h).1.symm

/-- A text is not one whose first code unit is another. -/
theorem ne_of_head_ne {s t : JsString} {u v : UInt16} (hs : s.head? = some u)
    (ht : t.head? = some v) (hne : u ≠ v) : s ≠ t := by
  rintro rfl
  exact hne (Option.some.inj (hs.symm.trans ht))

/-- A text does not start with one that holds what it does not. -/
theorem startsWith_of_not_mem {s start : JsString} {u : UInt16} (hstart : u ∈ start) (hs : u ∉ s) :
    startsWith s start = false := by
  rw [Bool.eq_false_iff, Ne, startsWith_iff]
  exact fun h => hs (h.subset hstart)

/-- A decimal text begins with a digit. -/
theorem exists_head?_natToString (n : ℕ) :
    ∃ u, (natToString n).head? = some u ∧ isDigit u = true := by
  cases htext : natToString n with
  | nil => exact absurd htext (natToString_ne_nil n)
  | cons u t =>
    exact ⟨u, rfl, isDigit_of_mem_natToString (htext ▸ List.mem_cons_self)⟩

/-- The digits of a decimal text are read as its number. -/
theorem parseDecimal_natToString (n : ℕ) : parseDecimal (natToString n) = some (n : ℤ) := by
  obtain ⟨u, hu, hdigit⟩ := exists_head?_natToString n
  obtain ⟨t, htext⟩ := List.head?_eq_some_iff.mp hu
  have hspace : isSpace u = false := by
    unfold isDigit at hdigit
    unfold isSpace
    simp only [Bool.and_eq_true, decide_eq_true_eq, UInt16.le_iff_toNat_le] at hdigit
    simp only [Bool.or_eq_false_iff, Bool.and_eq_false_iff, decide_eq_false_iff_not,
      UInt16.le_iff_toNat_le, ← UInt16.toNat_inj]
    refine ⟨⟨⟨⟨⟨⟨⟨⟨⟨⟨?_, ?_⟩, ?_⟩, ?_⟩, ?_⟩, ?_⟩, ?_⟩, ?_⟩, ?_⟩, ?_⟩, ?_⟩ <;>
      simp only [UInt16.reduceToNat] at * <;> omega
  have htrim : (natToString n).dropWhile isSpace = natToString n := by
    rw [htext, List.dropWhile_cons_of_neg (by simp [hspace])]
  have hdigits : (natToString n).takeWhile isDigit = natToString n :=
    List.takeWhile_eq_self_iff.mpr fun v hv => isDigit_of_mem_natToString hv
  have hminus : (natToString n).head? ≠ some (unit '-') := by
    rw [hu]
    rintro h
    obtain rfl := Option.some.inj h
    cases hdigit
  have hplus : (natToString n).head? ≠ some (unit '+') := by
    rw [hu]
    rintro h
    obtain rfl := Option.some.inj h
    cases hdigit
  unfold parseDecimal
  simp only [htrim, hminus, hplus, decide_false, Bool.false_eq_true, or_self, if_false, hdigits,
    natToString_ne_nil, digitsValue_natToString]

/-! ## Version 4 -/

/-- A text begins with a number and a dot exactly if that is the first number. -/
theorem startsWith_first (a b c d first : UInt8) :
    startsWith (ipv4Text (.of a b c d)) (natToString first.toNat ++ [unit '.']) =
      decide (a = first) := by
  rw [Bool.eq_iff_iff, decide_eq_true_eq, startsWith_iff, ipv4Text_of,
    append_cons_isPrefix_iff (not_mem_natToString (by decide)) (not_mem_natToString (by decide)),
    natToString_inj, UInt8.toNat_inj]
  exact ⟨fun h => h.1.symm, fun h => ⟨h.symm, List.nil_prefix⟩⟩

/-- A text begins with two numbers exactly if they are the first two. -/
theorem startsWith_second (a b c d first second : UInt8) :
    startsWith (ipv4Text (.of a b c d))
        (natToString first.toNat ++ unit '.' :: (natToString second.toNat ++ [unit '.'])) =
      decide (a = first ∧ b = second) := by
  rw [Bool.eq_iff_iff, decide_eq_true_eq, startsWith_iff, ipv4Text_of,
    append_cons_isPrefix_iff (not_mem_natToString (by decide)) (not_mem_natToString (by decide)),
    append_cons_isPrefix_iff (not_mem_natToString (by decide)) (not_mem_natToString (by decide)),
    natToString_inj, natToString_inj, UInt8.toNat_inj, UInt8.toNat_inj]
  exact ⟨fun h => ⟨h.1.symm, h.2.1.symm⟩, fun h => ⟨h.1.symm, h.2.symm, List.nil_prefix⟩⟩

/-- The numbers of a text hold no dot. -/
theorem split_ipv4Text (address : Ipv4) :
    split (unit '.') (ipv4Text address) = address.octets.map fun octet => natToString octet.toNat := by
  refine split_join (fun h => ?_) fun part hpart => ?_
  · have hlength := address.length_eq
    rw [List.map_eq_nil_iff.mp h] at hlength
    cases hlength
  · obtain ⟨octet, -, rfl⟩ := List.mem_map.mp hpart
    exact not_mem_natToString (by decide)

/-- Different addresses have different texts. -/
theorem ipv4Text_inj {address address' : Ipv4} : ipv4Text address = ipv4Text address' ↔
    address.octets = address'.octets := by
  refine ⟨fun h => ?_, fun h => by rw [ipv4Text, ipv4Text, h]⟩
  have hsplit := congrArg (split (unit '.')) h
  rw [split_ipv4Text, split_ipv4Text] at hsplit
  exact List.map_injective_iff.mpr
    (fun _ _ hoctet => UInt8.toNat_inj.mp (natToString_inj.mp hoctet)) hsplit

/-- The test of the second number reads it. -/
theorem isPrivateSecond_ipv4Text (a b c d : UInt8) :
    isPrivateSecond (ipv4Text (.of a b c d)) = decide (16 ≤ b ∧ b ≤ 31) := by
  unfold isPrivateSecond
  rw [split_ipv4Text]
  simp only [Ipv4.of, List.map_cons, List.getElem?_cons_succ, List.getElem?_cons_zero,
    Option.bind_some, parseDecimal_natToString, UInt8.le_iff_toNat_le, UInt8.reduceToNat]
  exact decide_eq_decide.mpr (by omega)

/-- A text of version 4 begins with a digit. -/
theorem exists_head?_ipv4Text (address : Ipv4) :
    ∃ u, (ipv4Text address).head? = some u ∧ isDigit u = true := by
  obtain ⟨a, b, c, d, rfl⟩ := address.eq_of
  obtain ⟨u, hu, hdigit⟩ := exists_head?_natToString a.toNat
  obtain ⟨t, htext⟩ := List.head?_eq_some_iff.mp hu
  exact ⟨u, by rw [ipv4Text_of, htext]; rfl, hdigit⟩

/-- A text of version 4 does not start with a text that begins otherwise. -/
theorem startsWith_ipv4Text_of_head {address : Ipv4} {start : JsString} {v : UInt16}
    (hstart : start.head? = some v) (hv : isDigit v = false) :
    startsWith (ipv4Text address) start = false := by
  obtain ⟨u, hu, hdigit⟩ := exists_head?_ipv4Text address
  exact startsWith_of_head_ne hu hstart (by rintro rfl; rw [hdigit] at hv; cases hv)

/-- A text of version 4 is no text that begins otherwise. -/
theorem ipv4Text_ne_of_head {address : Ipv4} {t : JsString} {v : UInt16}
    (ht : t.head? = some v) (hv : isDigit v = false) : ipv4Text address ≠ t := by
  obtain ⟨u, hu, hdigit⟩ := exists_head?_ipv4Text address
  exact ne_of_head_ne hu ht (by rintro rfl; rw [hdigit] at hv; cases hv)

/-! ## Groups -/

/-- The value of a hexadecimal digit. -/
theorem hexUnitValue_hexDigit {d : ℕ} (hd : d < 16) : hexUnitValue (hexDigit d) = d := by
  interval_cases d <;> rfl

/-- A hexadecimal text is read as its group. -/
theorem parseHex_hexText (group : UInt16) : parseHex (hexText group) = group.toNat := by
  have hbound := group.toNat_lt
  unfold hexText parseHex
  dsimp only
  split_ifs <;> simp only [List.foldl_cons, List.foldl_nil]
  · rw [hexUnitValue_hexDigit (by omega)]
    omega
  · rw [hexUnitValue_hexDigit (by omega), hexUnitValue_hexDigit (by omega)]
    omega
  · rw [hexUnitValue_hexDigit (by omega), hexUnitValue_hexDigit (by omega),
      hexUnitValue_hexDigit (by omega)]
    omega
  · rw [hexUnitValue_hexDigit (by omega), hexUnitValue_hexDigit (by omega),
      hexUnitValue_hexDigit (by omega), hexUnitValue_hexDigit (by omega)]
    omega

/-- Different groups have different texts. -/
theorem hexText_inj {group group' : UInt16} : hexText group = hexText group' ↔ group = group' := by
  refine ⟨fun h => ?_, fun h => h ▸ rfl⟩
  rw [← UInt16.toNat_inj, ← parseHex_hexText group, h, parseHex_hexText]

/-- A hexadecimal text begins with a hexadecimal digit. -/
theorem exists_head?_hexText (group : UInt16) :
    ∃ d < 16, (hexText group).head? = some (hexDigit d) := by
  cases htext : hexText group with
  | nil => exact absurd htext (hexText_ne_nil group)
  | cons u t =>
    obtain ⟨d, hd, rfl⟩ := exists_of_mem_hexText (htext ▸ List.mem_cons_self)
    exact ⟨d, hd, rfl⟩

/-- The groups whose text begins with `fd`. -/
def FdText (group : UInt16) : Prop :=
  group.toNat = 0xfd ∨ group.toNat / 16 = 0xfd ∨ group.toNat / 256 = 0xfd

instance (group : UInt16) : Decidable (FdText group) := by unfold FdText; infer_instance

/-- What may follow the text of a group: nothing, or a colon. -/
def Follows (t : JsString) : Prop := ∀ u ∈ t.head?, u = unit ':'

/-- What follows a group does not start with a hexadecimal digit. -/
theorem Follows.not_prefix {t p : JsString} (ht : Follows t) {d : ℕ} (hd : d < 16) :
    ¬ hexDigit d :: p <+: t := by
  rintro ⟨rest, rfl⟩
  have hcolon : ∀ d < 16, hexDigit d ≠ unit ':' := by decide
  exact hcolon d hd (ht _ rfl)

/-- The text of a group begins with `fd`. -/
theorem fd_isPrefix_iff {group : UInt16} {t : JsString} (ht : Follows t) :
    js "fd" <+: hexText group ++ t ↔ FdText group := by
  have hbound := group.toNat_lt
  have hfd : js "fd" = [hexDigit 15, hexDigit 13] := by decide
  rw [hfd]
  unfold hexText FdText
  dsimp only
  split_ifs with h₁ h₂ h₃ <;> simp only [List.cons_append, List.nil_append, List.cons_prefix_cons,
    List.nil_prefix, and_true]
  · rw [hexDigit_inj (by omega) (by omega)]
    exact ⟨fun h => absurd h.2 (ht.not_prefix (by omega)), fun h => by omega⟩
  · rw [hexDigit_inj (by omega) (by omega), hexDigit_inj (by omega) (by omega)]
    omega
  · rw [hexDigit_inj (by omega) (by omega), hexDigit_inj (by omega) (by omega)]
    omega
  · rw [hexDigit_inj (by omega) (by omega), hexDigit_inj (by omega) (by omega)]
    omega

/-- The text of a group begins with `fe80`. -/
theorem fe80_isPrefix_iff {group : UInt16} {t : JsString} (ht : Follows t) :
    js "fe80" <+: hexText group ++ t ↔ group = 0xfe80 := by
  have hbound := group.toNat_lt
  have hfe : js "fe80" = [hexDigit 15, hexDigit 14, hexDigit 8, hexDigit 0] := by decide
  rw [hfe, ← UInt16.toNat_inj]
  unfold hexText
  dsimp only
  split_ifs with h₁ h₂ h₃ <;> simp only [List.cons_append, List.nil_append, List.cons_prefix_cons,
    List.nil_prefix, and_true, UInt16.reduceToNat]
  · rw [hexDigit_inj (by omega) (by omega)]
    exact ⟨fun h => absurd h.2 (ht.not_prefix (by omega)), fun h => by omega⟩
  · rw [hexDigit_inj (by omega) (by omega), hexDigit_inj (by omega) (by omega)]
    exact ⟨fun h => absurd h.2.2 (ht.not_prefix (by omega)), fun h => by omega⟩
  · rw [hexDigit_inj (by omega) (by omega), hexDigit_inj (by omega) (by omega),
      hexDigit_inj (by omega) (by omega)]
    exact ⟨fun h => absurd h.2.2.2 (ht.not_prefix (by omega)), fun h => by omega⟩
  · rw [hexDigit_inj (by omega) (by omega), hexDigit_inj (by omega) (by omega),
      hexDigit_inj (by omega) (by omega), hexDigit_inj (by omega) (by omega)]
    omega

/-- Nothing may follow. -/
theorem Follows.nil : Follows [] := fun u hu => by cases hu

/-- A colon may follow. -/
theorem Follows.colon (t : JsString) : Follows (unit ':' :: t) := by
  rintro u hu
  exact (Option.some.inj hu).symm

/-! ## Version 6 -/

/-- The parts and the separators of a joined text. -/
theorem mem_join {sep u : UInt16} {parts : List JsString} (h : u ∈ join sep parts) :
    u = sep ∨ ∃ part ∈ parts, u ∈ part := by
  cases parts with
  | nil => cases h
  | cons part parts =>
    rw [join_cons] at h
    rcases List.mem_append.mp h with hpart | hrest
    · exact Or.inr ⟨part, List.mem_cons_self, hpart⟩
    · obtain ⟨other, hother, hmem⟩ := List.mem_flatMap.mp hrest
      rcases List.mem_cons.mp hmem with rfl | hmem
      · exact Or.inl rfl
      · exact Or.inr ⟨other, List.mem_cons_of_mem _ hother, hmem⟩

/-- Groups between colons hold no dot. -/
theorem dot_not_mem_join (groups : List UInt16) :
    unit '.' ∉ join (unit ':') (groups.map hexText) := by
  intro h
  rcases mem_join h with hsep | ⟨part, hpart, hmem⟩
  · cases hsep
  · obtain ⟨group, -, rfl⟩ := List.mem_map.mp hpart
    exact dot_not_mem_hexText group hmem

/-- A text of version 6 holds no dot. -/
theorem dot_not_mem_ipv6Text (address : Ipv6) : unit '.' ∉ ipv6Text address := by
  have hcolons : unit '.' ∉ js "::" := by decide
  unfold ipv6Text
  split
  · exact dot_not_mem_join _
  · rw [List.mem_append, List.mem_append, not_or, not_or]
    exact ⟨⟨dot_not_mem_join _, hcolons⟩, dot_not_mem_join _⟩

/-- A run is the length found at its place. -/
theorem zeroRun_of_compressedRun {groups : List UInt16} {start length : ℕ}
    (h : compressedRun groups = some (start, length)) :
    2 ≤ length ∧ zeroRun groups start = length := by
  unfold compressedRun at h
  dsimp only at h
  split_ifs at h with hshort
  have hlong := Option.some.inj h
  -- The best run so far is the run at its place as soon as there is one.
  have hrun := List.foldlRecOn (motive := fun best : ℕ × ℕ =>
      2 ≤ best.2 → zeroRun groups best.1 = best.2) (List.range groups.length)
    (fun best i => if best.2 < zeroRun groups i then (i, zeroRun groups i) else best)
    (fun h => absurd h (by decide) : 2 ≤ ((0, 1) : ℕ × ℕ).2 → _) fun best hbest i _ => by
      split_ifs
      · exact fun _ => rfl
      · exact hbest
  rw [hlong] at hshort hrun
  exact ⟨by omega, hrun (by omega)⟩

/-- What follows a run that begins at the first group: the run is zero, and no zero follows. -/
theorem groups_of_compressedRun {groups : List UInt16} {length : ℕ}
    (h : compressedRun groups = some (0, length)) :
    2 ≤ length ∧ groups = List.replicate length 0 ++ groups.drop length ∧
      (groups.drop length).head? ≠ some 0 := by
  obtain ⟨hlength, hrun⟩ := zeroRun_of_compressedRun h
  have hsplit := List.takeWhile_append_dropWhile (p := (· = 0)) (l := groups)
  have htake : groups.takeWhile (· = 0) = List.replicate length 0 := by
    rw [List.eq_replicate_iff]
    exact ⟨hrun, fun u hu => by simpa using List.mem_takeWhile_imp hu⟩
  have hdrop : groups.drop length = groups.dropWhile (· = 0) := by
    conv_lhs => rw [← hsplit, htake]
    rw [List.drop_left' (by simp)]
  refine ⟨hlength, ?_, fun hzero => ?_⟩
  · rw [hdrop, ← htake, hsplit]
  · rw [hdrop] at hzero
    obtain ⟨rest, hrest⟩ := List.head?_eq_some_iff.mp hzero
    have hne : groups.dropWhile (· = 0) ≠ [] := hrest ▸ List.cons_ne_nil _ _
    have hhead := List.head_dropWhile_not _ hne
    simp only [hrest, List.head_cons, decide_true, Bool.true_eq_false] at hhead

/-- A text whose first groups are left out. -/
theorem ipv6Text_of_compressed {address : Ipv6} {length : ℕ}
    (h : compressedRun address.groups = some (0, length)) : ipv6Text address =
      js "::" ++ join (unit ':') ((address.groups.drop length).map hexText) := by
  unfold ipv6Text
  rw [h]
  simp only [List.take_zero, List.map_nil, Nat.zero_add]
  rfl

/-- A text whose first groups are not left out begins with the first group and a colon. -/
theorem exists_ipv6Text {address : Ipv6} (h : ∀ length, compressedRun address.groups ≠ some (0, length)) :
    ∃ group t, address.groups.head? = some group ∧
      ipv6Text address = hexText group ++ unit ':' :: t := by
  obtain ⟨groups, hlength⟩ := address
  obtain ⟨group, second, groups, rfl⟩ : ∃ group second rest, groups = group :: second :: rest := by
    match groups, hlength with
    | group :: second :: rest, _ => exact ⟨group, second, rest, rfl⟩
  unfold ipv6Text
  dsimp only at h ⊢
  cases hrun : compressedRun (group :: second :: groups) with
  | none => exact ⟨group, _, rfl, by rw [List.map_cons, List.map_cons, join_cons_cons]⟩
  | some run =>
    obtain ⟨start, length⟩ := run
    cases start with
    | zero => exact absurd hrun (h length)
    | succ start =>
      cases start with
      | zero => exact ⟨group, _, rfl, by
          simp only [List.take_succ_cons, List.take_zero, List.map_cons, List.map_nil,
            join_singleton, List.append_assoc]; rfl⟩
      | succ start => exact ⟨group, _, rfl, by
          simp only [List.take_succ_cons, List.map_cons, join_cons_cons, List.append_assoc,
            List.cons_append]; rfl⟩

end T3x.Network
