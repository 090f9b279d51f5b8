import T3x.Network.Prefixes

/-!
# What the guard blocks

The ranges that the guard means to block are given by numbers, the guard tests
texts. It is exact on addresses of version 4. Of version 6 it takes `fd` for a
first group of two or three digits as well, tests one of the sixty-four first
groups of the link-local range, and rechecks more than the mapped addresses. It
takes names for addresses that begin alike.
-/

namespace T3x.Network

open Js

/-! ## The blocked ranges -/

/-- The blocked addresses of version 4: `127.0.0.0/8`, `0.0.0.0`, `10.0.0.0/8`, `172.16.0.0/12`,
`192.168.0.0/16` and `169.254.0.0/16`. -/
def Ipv4.isBlocked (address : Ipv4) : Bool :=
  match address.octets with
  | [a, b, c, d] =>
    a = 127 ∨ (a = 0 ∧ b = 0 ∧ c = 0 ∧ d = 0) ∨ a = 10 ∨ (a = 192 ∧ b = 168) ∨
      (a = 172 ∧ 16 ≤ b ∧ b ≤ 31) ∨ (a = 169 ∧ b = 254)
  | _ => false

/-- The first group of an address. -/
def Ipv6.first (address : Ipv6) : UInt16 := address.groups.headD 0

/-- The blocked addresses of version 6: `::`, `::1`, `fd00::/8` and `fe80::/10`, and the mapped
addresses of blocked ones. -/
def Ipv6.isBlocked (address : Ipv6) : Bool :=
  match address.mapped with
  | some embedded => embedded.isBlocked
  | none =>
    address.groups = List.replicate 8 0 ∨ address.groups = List.replicate 7 0 ++ [1] ∨
      address.first.toNat / 256 = 0xfd ∨ address.first.toNat / 64 = 0x3fa

/-! ## Version 4 -/

/-- The text tests of an address of version 4 are its range tests. -/
theorem isInternalIP_ipv4Text (address : Ipv4) :
    isInternalIP (ipv4Text address) = address.isBlocked := by
  obtain ⟨a, b, c, d, rfl⟩ := address.eq_of
  have h127 : js "127." = natToString (127 : UInt8).toNat ++ [unit '.'] := by decide
  have h10 : js "10." = natToString (10 : UInt8).toNat ++ [unit '.'] := by decide
  have h172 : js "172." = natToString (172 : UInt8).toNat ++ [unit '.'] := by decide
  have h192 : js "192.168." = natToString (192 : UInt8).toNat ++ unit '.' ::
      (natToString (168 : UInt8).toNat ++ [unit '.']) := by decide
  have h169 : js "169.254." = natToString (169 : UInt8).toNat ++ unit '.' ::
      (natToString (254 : UInt8).toNat ++ [unit '.']) := by decide
  have h0 : js "0.0.0.0" = ipv4Text (.of 0 0 0 0) := by decide
  have hcolon (t : JsString) (ht : t.head? = some (unit ':')) : ipv4Text (.of a b c d) ≠ t :=
    ipv4Text_ne_of_head ht (by decide)
  have hf (t : JsString) (ht : t.head? = some (unit 'f')) :
      startsWith (ipv4Text (.of a b c d)) t = false :=
    startsWith_ipv4Text_of_head ht (by decide)
  unfold isInternalIP
  simp only [h127, h10, h172, h192, h169, h0, startsWith_first, startsWith_second, ipv4Text_inj,
    isPrivateSecond_ipv4Text, hf (js "fd") rfl, hf (js "fe80") rfl,
    hcolon (js "::1") rfl, hcolon (js "::") rfl, hcolon (js "::0") rfl,
    decide_eq_true_eq, Bool.false_eq_true, or_false, if_false]
  unfold Ipv4.isBlocked Ipv4.of
  simp only [List.cons.injEq, and_true, Bool.if_true_left, Bool.or_false]
  rw [Bool.eq_iff_iff]
  simp only [Bool.or_eq_true, decide_eq_true_eq]
  tauto

/-! ## The two functions -/

/-- On other texts than two names and those of mapped addresses the two functions agree. -/
theorem isInternalHostname_eq {recheck : JsString → Option Bool} {s : JsString}
    (hlocal : s ≠ js "localhost") (hmetadata : s ≠ js "metadata.google.internal")
    (hmapped : startsWith s (js "::ffff:") = false) :
    isInternalHostname recheck s = some (isInternalIP s) := by
  unfold isInternalHostname isInternalIP
  simp only [hlocal, hmetadata, hmapped, false_or, or_false, Bool.false_eq_true, if_false]
  split_ifs <;> rfl

/-- The guard is exact on texts of version 4. -/
theorem isInternalHostname_ipv4Text (recheck : JsString → Option Bool) (address : Ipv4) :
    isInternalHostname recheck (ipv4Text address) = some address.isBlocked := by
  rw [isInternalHostname_eq (ipv4Text_ne_of_head (v := unit 'l') rfl (by decide))
    (ipv4Text_ne_of_head (v := unit 'm') rfl (by decide))
    (startsWith_ipv4Text_of_head (v := unit ':') rfl (by decide)), isInternalIP_ipv4Text]

/-! ## Version 6 -/

/-- The texts that begin with two colons: all zeros, and one. -/
theorem isInternalIP_colons (t : JsString) :
    isInternalIP (js "::" ++ t) = decide (t = [] ∨ t = js "0" ∨ t = js "1") := by
  have hother (start : JsString) {v : UInt16} (hstart : start.head? = some v) (hv : unit ':' ≠ v) :
      startsWith (js "::" ++ t) start = false :=
    startsWith_of_head_ne rfl hstart hv
  have hzeros : js "::" ++ t ≠ js "0.0.0.0" := ne_of_head_ne rfl rfl (by decide)
  have hnone : js "::" ++ t = js "::" ↔ t = [] := List.append_right_eq_self
  have hzero : js "::" ++ t = js "::0" ↔ t = js "0" := by
    rw [show js "::0" = js "::" ++ js "0" by decide, List.append_right_inj]
  have hone : js "::" ++ t = js "::1" ↔ t = js "1" := by
    rw [show js "::1" = js "::" ++ js "1" by decide, List.append_right_inj]
  unfold isInternalIP
  simp only [hother (js "127.") rfl (by decide), hother (js "10.") rfl (by decide),
    hother (js "192.168.") rfl (by decide), hother (js "172.") rfl (by decide),
    hother (js "169.254.") rfl (by decide), hother (js "fd") rfl (by decide),
    hother (js "fe80") rfl (by decide), hzeros, hnone, hzero, hone, Bool.false_eq_true,
    false_or, false_and, or_self, if_false, Bool.if_true_left, Bool.or_false]
  rw [Bool.eq_iff_iff]
  simp only [Bool.or_eq_true, decide_eq_true_eq]
  exact or_rotate

/-- The texts that begin with a group: `fd` and `fe80`. -/
theorem isInternalIP_group {group : UInt16} {t : JsString} (ht : Follows t)
    (hdot : unit '.' ∉ t) :
    isInternalIP (hexText group ++ t) = decide (FdText group ∨ group = 0xfe80) := by
  obtain ⟨d, hd, hhead⟩ := exists_head?_hexText group
  have hfirst : (hexText group ++ t).head? = some (hexDigit d) := by
    rw [List.head?_append, hhead]
    rfl
  have hdigit : ∀ d < 16, hexDigit d ≠ unit ':' := by decide
  have hdotted (start : JsString) (hstart : unit '.' ∈ start) :
      startsWith (hexText group ++ t) start = false :=
    startsWith_of_not_mem hstart (by
      rw [List.mem_append, not_or]
      exact ⟨dot_not_mem_hexText group, hdot⟩)
  have hother (s : JsString) (hs : s.head? = some (unit ':')) : hexText group ++ t ≠ s :=
    ne_of_head_ne hfirst hs (hdigit d hd)
  have hzeros : hexText group ++ t ≠ js "0.0.0.0" := by
    intro h
    have hmem : unit '.' ∈ hexText group ++ t := by rw [h]; decide
    rcases List.mem_append.mp hmem with hmem | hmem
    · exact dot_not_mem_hexText group hmem
    · exact hdot hmem
  unfold isInternalIP
  simp only [hdotted (js "127.") (by decide), hdotted (js "10.") (by decide),
    hdotted (js "192.168.") (by decide), hdotted (js "172.") (by decide),
    hdotted (js "169.254.") (by decide), hzeros, hother (js "::1") rfl, hother (js "::") rfl,
    hother (js "::0") rfl, startsWith_iff, fd_isPrefix_iff ht, fe80_isPrefix_iff ht,
    Bool.false_eq_true, false_and, or_self, if_false]
  rw [Bool.eq_iff_iff, decide_eq_true_eq]
  split_ifs <;> simp_all

/-- The text of an address that begins with its first group is judged by that group. -/
theorem isInternalIP_ipv6Text {address : Ipv6}
    (h : ∀ length, compressedRun address.groups ≠ some (0, length)) :
    isInternalIP (ipv6Text address) = decide (FdText address.first ∨ address.first = 0xfe80) := by
  obtain ⟨group, t, hfirst, htext⟩ := exists_ipv6Text h
  have hdot := dot_not_mem_ipv6Text address
  rw [htext, List.mem_append, not_or] at hdot
  rw [htext, isInternalIP_group (Follows.colon t) hdot.2, Ipv6.first, List.headD_eq_head?_getD,
    hfirst, Option.getD_some]

/-- The literal and the resolved address are judged alike if the text begins with a group. -/
theorem isInternalHostname_ipv6Text {recheck : JsString → Option Bool} {address : Ipv6}
    (h : ∀ length, compressedRun address.groups ≠ some (0, length)) :
    isInternalHostname recheck (ipv6Text address) =
      some (decide (FdText address.first ∨ address.first = 0xfe80)) := by
  obtain ⟨group, t, -, htext⟩ := exists_ipv6Text h
  obtain ⟨d, hd, hhead⟩ := exists_head?_hexText group
  have hfirst : (ipv6Text address).head? = some (hexDigit d) := by
    rw [htext, List.head?_append, hhead]
    rfl
  have hcolon : ∀ d < 16, hexDigit d ≠ unit ':' := by decide
  have hlocal : ipv6Text address ≠ js "localhost" := by
    intro hlocal
    have hmem : unit ':' ∈ ipv6Text address := htext ▸ by simp
    rw [hlocal] at hmem
    exact absurd hmem (by decide)
  have hmetadata : ipv6Text address ≠ js "metadata.google.internal" := by
    intro hmetadata
    exact dot_not_mem_ipv6Text address (hmetadata ▸ by decide)
  rw [isInternalHostname_eq hlocal hmetadata (startsWith_of_head_ne hfirst rfl (hcolon d hd)),
    isInternalIP_ipv6Text h]

/-- The host of a mapped address is checked as a URL of its own. -/
theorem isInternalHostname_mapped (recheck : JsString → Option Bool) (mapped : JsString) :
    isInternalHostname recheck (js "::ffff:" ++ mapped) =
      match hexPair mapped with
      | some (high, low) => recheck (httpUrl (dottedText high low))
      | none => recheck (httpUrl mapped) := by
  have hstart : startsWith (js "::ffff:" ++ mapped) (js "::ffff:") = true :=
    startsWith_iff.mpr (List.prefix_append _ _)
  have hlocal : js "::ffff:" ++ mapped ≠ js "localhost" := ne_of_head_ne rfl rfl (by decide)
  have hzeros : js "::ffff:" ++ mapped ≠ js "0.0.0.0" := ne_of_head_ne rfl rfl (by decide)
  have hloop : startsWith (js "::ffff:" ++ mapped) (js "127.") = false :=
    startsWith_of_head_ne rfl rfl (by decide)
  have hshort (s : JsString) (hs : s.length < 7) : js "::ffff:" ++ mapped ≠ s := by
    rintro rfl
    rw [List.length_append, show (js "::ffff:").length = 7 by decide] at hs
    omega
  have hdrop : (js "::ffff:" ++ mapped).drop 7 = mapped := List.drop_left' (by decide)
  have hloopback := hshort (js "::1") (by decide)
  have hunspecified := hshort (js "::") (by decide)
  have hzero := hshort (js "::0") (by decide)
  rw [isInternalHostname]
  cases hpair : hexPair mapped <;>
    simp only [hstart, hlocal, hzeros, hloop, hloopback, hunspecified, hzero, hdrop, hpair,
      Bool.false_eq_true, or_self, if_false, if_true]

/-- The joined texts of groups are the text of a group only if that is all there is. -/
theorem join_eq_hexText {rest : List UInt16} {group : UInt16} :
    join (unit ':') (rest.map hexText) = hexText group ↔ rest = [group] := by
  constructor
  · intro h
    cases rest with
    | nil => exact absurd h.symm (hexText_ne_nil group)
    | cons first rest =>
      have hsplit := congrArg (split (unit ':')) h
      rw [split_of_not_mem (colon_not_mem_hexText group), split_join (by simp) fun part hpart => by
        obtain ⟨other, -, rfl⟩ := List.mem_map.mp hpart
        exact colon_not_mem_hexText other] at hsplit
      rw [List.map_cons, List.cons.injEq, hexText_inj, List.map_eq_nil_iff] at hsplit
      rw [hsplit.1, hsplit.2]
  · rintro rfl
    rw [List.map_cons, List.map_nil, join_singleton]

/-- The joined texts of groups are empty only if there are none. -/
theorem join_eq_nil {rest : List UInt16} : join (unit ':') (rest.map hexText) = [] ↔ rest = [] := by
  cases rest with
  | nil => exact iff_of_true rfl rfl
  | cons first rest =>
    rw [List.map_cons, join_cons, List.append_eq_nil_iff]
    exact iff_of_false (fun h => hexText_ne_nil first h.1) (List.cons_ne_nil _ _)

/-- The joined texts of groups start with `ffff:` if that is the first group and others follow. -/
theorem startsWith_ffff {rest : List UInt16} :
    js "ffff:" <+: join (unit ':') (rest.map hexText) ↔ ∃ tail, tail ≠ [] ∧ rest = 0xffff :: tail := by
  have hffff : js "ffff:" = hexText 0xffff ++ unit ':' :: [] := by decide
  rw [hffff]
  match rest with
  | [] =>
    refine iff_of_false (fun h => ?_) (fun ⟨_, _, h⟩ => by cases h)
    cases List.prefix_nil.mp h
  | [group] =>
    rw [List.map_cons, List.map_nil, join_singleton]
    refine iff_of_false (fun h => ?_) (fun ⟨tail, hne, h⟩ => hne (List.cons.inj h).2.symm)
    exact colon_not_mem_hexText group (h.subset (by simp))
  | group :: next :: tail =>
    rw [List.map_cons, List.map_cons, join_cons_cons,
      append_cons_isPrefix_iff (colon_not_mem_hexText group) (colon_not_mem_hexText _), hexText_inj]
    constructor
    · rintro ⟨rfl, -⟩
      exact ⟨next :: tail, List.cons_ne_nil _ _, rfl⟩
    · rintro ⟨tail', -, h⟩
      exact ⟨(List.cons.inj h).1.symm, List.nil_prefix⟩

/-- A text that begins with two colons is judged by its groups, except for mapped addresses. -/
theorem isInternalHostname_colons {recheck : JsString → Option Bool} {rest : List UInt16}
    (hzero : rest.head? ≠ some 0) (hmapped : ∀ tail, tail ≠ [] → rest ≠ 0xffff :: tail) :
    isInternalHostname recheck (js "::" ++ join (unit ':') (rest.map hexText)) =
      some (decide (rest = [] ∨ rest = [1])) := by
  have hstart : startsWith (js "::" ++ join (unit ':') (rest.map hexText)) (js "::ffff:") = false := by
    rw [Bool.eq_false_iff, Ne, startsWith_iff, show js "::ffff:" = js "::" ++ js "ffff:" by decide,
      List.prefix_append_right_inj, startsWith_ffff]
    rintro ⟨tail, hne, h⟩
    exact hmapped tail hne h
  have h0 : js "0" = hexText 0 := by decide
  have h1 : js "1" = hexText 1 := by decide
  have hnot : rest ≠ [0] := by
    rintro rfl
    exact hzero rfl
  rw [isInternalHostname_eq (ne_of_head_ne (u := unit ':') rfl rfl (by decide))
    (ne_of_head_ne (u := unit ':') rfl rfl (by decide)) hstart, isInternalIP_colons, h0, h1]
  simp only [join_eq_nil, join_eq_hexText, hnot, false_or]

/-! ## Names -/

/-- The names that begin like a blocked address. -/
def looksBlocked (name : JsString) : Bool :=
  startsWith name (js "127.") || name = js "0.0.0.0" || startsWith name (js "10.") ||
    startsWith name (js "192.168.") || (startsWith name (js "172.") && isPrivateSecond name) ||
    startsWith name (js "169.254.") || startsWith name (js "fd") || startsWith name (js "fe80")

/-- A name is blocked if it is one of two or begins like a blocked address. -/
theorem isInternalHostname_name {recheck : JsString → Option Bool} {name : JsString}
    (hcolon : unit ':' ∉ name) : isInternalHostname recheck name =
      some (decide (name = js "localhost" ∨ name = js "metadata.google.internal" ∨
        looksBlocked name = true)) := by
  have hne (s : JsString) (hs : unit ':' ∈ s) : name ≠ s := by
    rintro rfl
    exact hcolon hs
  have hmapped : startsWith name (js "::ffff:") = false := startsWith_of_not_mem (by decide) hcolon
  unfold isInternalHostname looksBlocked
  simp only [hne (js "::1") (by decide), hne (js "::") (by decide), hne (js "::0") (by decide),
    hmapped, Bool.false_eq_true, or_self, or_false, if_false, Bool.or_eq_true, Bool.and_eq_true,
    decide_eq_true_eq]
  clear hne hmapped hcolon
  grind

end T3x.Network
