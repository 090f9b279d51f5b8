import T3x.Network.Guard

/-!
# Where the guard is exact

What the guard needs to know of the parser of URLs is how it reads the few hosts
that a mapped address is rechecked as. From this follows, host by host, where
the answer of the guard is the one that its ranges give.
-/

namespace T3x.Network

open Js

/-! ## The parser of URLs -/

/-- What is standard of a parser of URLs. -/
structure UrlStandard (parseUrl : JsString → Option UrlHost) : Prop where
  /-- Colons and brackets are forbidden in names. -/
  domain : ∀ urlStr name, parseUrl urlStr = some (.domain name) →
    unit ':' ∉ name ∧ unit '[' ∉ name ∧ unit ']' ∉ name
  /-- The text of an address of version 4 is read as the address. -/
  address : ∀ address, parseUrl (httpUrl (ipv4Text address)) = some (.ipv4 address)
  /-- A number is read as an address of version 4, another hexadecimal text as a name. -/
  group : ∀ group, parseUrl (httpUrl (hexText group)) =
    if (hexText group).all isDigit then
      some (.ipv4 (embedded 0 (digitsValue (hexText group)).toUInt16))
    else some (.domain (hexText group))
  /-- What follows the first colon must be a port. -/
  groups : ∀ groups : List UInt16, 3 ≤ groups.length →
    parseUrl (httpUrl (join (unit ':') (groups.map hexText))) = none

/-! ## Brackets -/

/-- A host without brackets is kept. -/
theorem stripBrackets_of_not_mem {s : JsString} (hopen : unit '[' ∉ s) (hclose : unit ']' ∉ s) :
    stripBrackets s = s := by
  have hhead : s.head? ≠ some (unit '[') := fun h => hopen (List.mem_of_head? h)
  have hlast : s.getLast? ≠ some (unit ']') := fun h => hclose (List.mem_of_getLast? h)
  unfold stripBrackets
  rw [if_neg hhead, if_neg hlast]

/-- The brackets around a host are removed. -/
theorem stripBrackets_brackets (s : JsString) :
    stripBrackets (unit '[' :: (s ++ [unit ']'])) = s := by
  unfold stripBrackets
  simp only [List.head?_cons, if_true, List.tail_cons, List.getLast?_concat, List.dropLast_concat]

/-- A text of version 4 holds digits and dots. -/
theorem not_mem_ipv4Text {address : Ipv4} {u : UInt16} (hdigit : isDigit u = false)
    (hdot : u ≠ unit '.') : u ∉ ipv4Text address := by
  intro h
  rcases mem_join h with hsep | ⟨part, hpart, hmem⟩
  · exact hdot hsep
  · obtain ⟨octet, -, rfl⟩ := List.mem_map.mp hpart
    exact not_mem_natToString hdigit hmem

section

variable {parseUrl : JsString → Option UrlHost}

/-! ## Literals of version 4 and names -/

/-- The guard is exact on addresses of version 4. -/
theorem isInternalUrl_ipv4 {urlStr : JsString} {address : Ipv4}
    (hparse : parseUrl urlStr = some (.ipv4 address)) (calls : ℕ) :
    isInternalUrl parseUrl (calls + 1) urlStr = some address.isBlocked := by
  unfold isInternalUrl
  rw [hparse]
  dsimp only [UrlHost.hostname]
  rw [stripBrackets_of_not_mem (not_mem_ipv4Text (by decide) (by decide))
    (not_mem_ipv4Text (by decide) (by decide)), isInternalHostname_ipv4Text]

/-- The guard blocks two names and those that begin like blocked addresses. -/
theorem isInternalUrl_name (hurl : UrlStandard parseUrl) {urlStr name : JsString}
    (hparse : parseUrl urlStr = some (.domain name)) (calls : ℕ) :
    isInternalUrl parseUrl (calls + 1) urlStr =
      some (decide (name = js "localhost" ∨ name = js "metadata.google.internal" ∨
        looksBlocked name = true)) := by
  obtain ⟨hcolon, hopen, hclose⟩ := hurl.domain urlStr name hparse
  unfold isInternalUrl
  rw [hparse]
  dsimp only [UrlHost.hostname]
  rw [stripBrackets_of_not_mem hopen hclose, isInternalHostname_name hcolon]

/-! ## The recheck of mapped addresses -/

/-- A group's text is a number or begins with a letter among its digits. -/
theorem not_fdText_of_digits {group : UInt16} (h : (hexText group).all isDigit = true) :
    ¬ FdText group ∧ group ≠ 0xfe80 := by
  have hletter {start : JsString} (hmem : unit 'f' ∈ start) : ¬ start <+: hexText group ++ [] := by
    intro hprefix
    rw [List.append_nil] at hprefix
    have hdigit := List.all_eq_true.mp h _ (List.IsPrefix.subset hprefix hmem)
    exact absurd hdigit (by decide)
  exact ⟨fun hfd => hletter (by decide) ((fd_isPrefix_iff Follows.nil).mpr hfd),
    fun hfe => hletter (by decide) ((fe80_isPrefix_iff Follows.nil).mpr hfe)⟩

/-- A group whose text is a number is zero exactly if the number is. -/
theorem digitsValue_hexText {group : UInt16} (h : (hexText group).all isDigit = true) :
    digitsValue (hexText group) < 10000 ∧ (digitsValue (hexText group) = 0 ↔ group = 0) := by
  have hbound := group.toNat_lt
  have hdigit : ∀ d < 16, isDigit (hexDigit d) = true → d < 10 ∧ (hexDigit d).toNat - 48 = d := by
    decide
  rw [← UInt16.toNat_inj]
  unfold hexText digitsValue at *
  dsimp only at h ⊢
  split_ifs at h ⊢ <;> simp only [List.all_cons, List.all_nil, Bool.and_true, Bool.and_eq_true] at h
    <;> simp only [List.foldl_cons, List.foldl_nil, UInt16.reduceToNat]
  · obtain ⟨h₀, hv₀⟩ := hdigit _ (by omega) h
    omega
  · obtain ⟨h₁, hv₁⟩ := hdigit _ (by omega) h.1
    obtain ⟨h₀, hv₀⟩ := hdigit _ (by omega) h.2
    omega
  · obtain ⟨h₂, hv₂⟩ := hdigit _ (by omega) h.1
    obtain ⟨h₁, hv₁⟩ := hdigit _ (by omega) h.2.1
    obtain ⟨h₀, hv₀⟩ := hdigit _ (by omega) h.2.2
    omega
  · obtain ⟨h₃, hv₃⟩ := hdigit _ (by omega) h.1
    obtain ⟨h₂, hv₂⟩ := hdigit _ (by omega) h.2.1
    obtain ⟨h₁, hv₁⟩ := hdigit _ (by omega) h.2.2.1
    obtain ⟨h₀, hv₀⟩ := hdigit _ (by omega) h.2.2.2
    omega

/-- Of the addresses that begin with two zeros only `0.0.0.0` is blocked. -/
theorem isBlocked_embedded_zero (low : UInt16) :
    (embedded 0 low).isBlocked = decide (low = 0) := by
  have hbound := low.toNat_lt
  have hzero (n : ℕ) (hn : n < 256) : n.toUInt8 = 0 ↔ n = 0 := by
    rw [← UInt8.toNat_inj]
    change (UInt8.ofNat n).toNat = 0 ↔ n = 0
    rw [UInt8.toNat_ofNat', Nat.mod_eq_of_lt hn]
  unfold Ipv4.isBlocked embedded Ipv4.of
  dsimp only
  rw [decide_eq_decide, hzero (low.toNat / 256) (by omega), hzero (low.toNat % 256) (by omega),
    ← UInt16.toNat_inj]
  simp only [UInt16.reduceToNat]
  constructor
  · rintro (h | h | h | h | h | h)
    · cases h
    · omega
    · cases h
    · cases h.1
    · cases h.1
    · cases h.1
  · intro h
    exact Or.inr (Or.inl ⟨by decide, by decide, by omega, by omega⟩)

/-- Of the texts of groups those that begin with `fd` or `fe80` look blocked. -/
theorem looksBlocked_hexText (group : UInt16) :
    looksBlocked (hexText group) = decide (FdText group ∨ group = 0xfe80) := by
  have hdotted (start : JsString) (hstart : unit '.' ∈ start) :
      startsWith (hexText group) start = false :=
    startsWith_of_not_mem hstart (dot_not_mem_hexText group)
  have hzeros : hexText group ≠ js "0.0.0.0" := by
    intro h
    exact dot_not_mem_hexText group (h ▸ by decide)
  have hfd : js "fd" <+: hexText group ↔ FdText group := by
    rw [← fd_isPrefix_iff Follows.nil, List.append_nil]
  have hfe : js "fe80" <+: hexText group ↔ group = 0xfe80 := by
    rw [← fe80_isPrefix_iff Follows.nil, List.append_nil]
  unfold looksBlocked
  simp only [hdotted (js "127.") (by decide), hdotted (js "10.") (by decide),
    hdotted (js "192.168.") (by decide), hdotted (js "172.") (by decide),
    hdotted (js "169.254.") (by decide), hzeros, decide_false, Bool.false_and, Bool.or_self,
    Bool.false_or]
  rw [Bool.eq_iff_iff, Bool.or_eq_true, startsWith_iff, startsWith_iff, hfd, hfe, decide_eq_true_eq]

/-- The recheck of a single group blocks zero and the texts that begin with `fd` or `fe80`. -/
theorem isInternalUrl_group (hurl : UrlStandard parseUrl) (group : UInt16) (calls : ℕ) :
    isInternalUrl parseUrl (calls + 1) (httpUrl (hexText group)) =
      some (decide (group = 0 ∨ FdText group ∨ group = 0xfe80)) := by
  have hparse := hurl.group group
  split_ifs at hparse with hdigits
  · obtain ⟨hfd, hfe⟩ := not_fdText_of_digits hdigits
    obtain ⟨hlt, hzero⟩ := digitsValue_hexText hdigits
    have hvalue : (digitsValue (hexText group)).toUInt16 = 0 ↔ group = 0 := by
      rw [← hzero, ← UInt16.toNat_inj]
      change (UInt16.ofNat _).toNat = 0 ↔ _
      rw [UInt16.toNat_ofNat', Nat.mod_eq_of_lt (by omega)]
    rw [isInternalUrl_ipv4 hparse, isBlocked_embedded_zero]
    simp only [hvalue, hfd, hfe, or_false]
  · have hlocal : hexText group ≠ js "localhost" := by
      obtain ⟨d, hd, hhead⟩ := exists_head?_hexText group
      have hletter : ∀ d < 16, hexDigit d ≠ unit 'l' := by decide
      exact ne_of_head_ne hhead rfl (hletter d hd)
    have hmetadata : hexText group ≠ js "metadata.google.internal" := by
      intro h
      exact dot_not_mem_hexText group (h ▸ by decide)
    have hzero : group ≠ 0 := by
      rintro rfl
      exact hdigits (by decide)
    rw [isInternalUrl_name hurl hparse, looksBlocked_hexText]
    simp only [hlocal, hmetadata, hzero, false_or, decide_eq_true_eq]

/-- The octets of two texts are those of their groups. -/
theorem dottedText_hexText (high low : UInt16) :
    dottedText (hexText high) (hexText low) = ipv4Text (embedded high low) := by
  have hoctet (n : ℕ) : n.toUInt8.toNat = n % 256 := UInt8.toNat_ofNat'
  unfold dottedText ipv4Text embedded Ipv4.of
  simp only [parseHex_hexText, List.map_cons, List.map_nil, hoctet, Nat.mod_mod]

/-- Two groups are told from fewer and more. -/
theorem hexPair_join {tail : List UInt16} (hne : tail ≠ []) :
    hexPair (join (unit ':') (tail.map hexText)) =
      match tail with
      | [high, low] => some (hexText high, hexText low)
      | _ => none := by
  have hhex (group : UInt16) : (hexText group).all isHexUnit = true := by
    have hdigit : ∀ d < 16, isHexUnit (hexDigit d) = true := by decide
    refine List.all_eq_true.mpr fun u hu => ?_
    obtain ⟨d, hd, rfl⟩ := exists_of_mem_hexText hu
    exact hdigit d hd
  have hsplit : split (unit ':') (join (unit ':') (tail.map hexText)) = tail.map hexText := by
    refine split_join (fun h => hne (List.map_eq_nil_iff.mp h)) fun part hpart => ?_
    obtain ⟨group, -, rfl⟩ := List.mem_map.mp hpart
    exact colon_not_mem_hexText group
  unfold hexPair
  rw [hsplit]
  match tail with
  | [] => rfl
  | [_] => rfl
  | [high, low] =>
    simp only [List.map_cons, List.map_nil]
    rw [if_pos ⟨hexText_ne_nil high, hexText_ne_nil low, hhex high, hhex low⟩]
  | _ :: _ :: _ :: _ => rfl

/-! ## Literals of version 6 -/

/-- The host of an address of version 6 is its text. -/
theorem isInternalUrl_eq {urlStr : JsString} {address : Ipv6}
    (hparse : parseUrl urlStr = some (.ipv6 address)) (calls : ℕ) :
    isInternalUrl parseUrl (calls + 1) urlStr =
      isInternalHostname (isInternalUrl parseUrl calls) (ipv6Text address) := by
  conv_lhs => unfold isInternalUrl
  rw [hparse]
  dsimp only [UrlHost.hostname]
  rw [stripBrackets_brackets]

/-- The groups of a mapped address. -/
theorem groups_of_mapped {address : Ipv6} {embed : Ipv4} (h : address.mapped = some embed) :
    ∃ high low, address.groups = [0, 0, 0, 0, 0, 0xffff, high, low] ∧ embed = embedded high low := by
  unfold Ipv6.mapped at h
  split_ifs at h with htake
  split at h
  next high low hdrop =>
    refine ⟨high, low, ?_, (Option.some.inj h).symm⟩
    rw [← List.take_append_drop 6 address.groups, htake, hdrop]
    rfl
  next => cases h

/-- The five zeros of a mapped address are left out of its text. -/
theorem compressedRun_mapped (high low : UInt16) :
    compressedRun [0, 0, 0, 0, 0, 0xffff, high, low] = some (0, 5) := by
  by_cases hhigh : high = 0 <;> by_cases hlow : low = 0 <;>
    simp [compressedRun, zeroRun, List.range_succ, List.takeWhile, hhigh, hlow]

/-- An address whose first groups are zero begins with zero. -/
theorem first_of_compressedRun {address : Ipv6} {length : ℕ}
    (hrun : compressedRun address.groups = some (0, length)) : address.first = 0 := by
  obtain ⟨hlength, hgroups, -⟩ := groups_of_compressedRun hrun
  obtain ⟨length, rfl⟩ : ∃ n, length = n + 1 := ⟨length - 1, by omega⟩
  unfold Ipv6.first
  rw [hgroups, List.replicate_succ]
  rfl

/-- The groups that are left out are zero. -/
theorem groups_eq {address : Ipv6} {length : ℕ}
    (hrun : compressedRun address.groups = some (0, length)) :
    address.groups = List.replicate (8 - (address.groups.drop length).length) 0 ++
      address.groups.drop length := by
  obtain ⟨-, hgroups, -⟩ := groups_of_compressedRun hrun
  have hlength := address.length_eq
  rw [hgroups, List.length_append, List.length_replicate] at hlength
  rw [show 8 - (address.groups.drop length).length = length by omega]
  exact hgroups

/-- All groups are zero if nothing follows those left out. -/
theorem groups_eq_zeros_iff {address : Ipv6} {length : ℕ}
    (hrun : compressedRun address.groups = some (0, length)) :
    address.groups = List.replicate 8 0 ↔ address.groups.drop length = [] := by
  constructor
  · intro hgroups
    have hlength : compressedRun address.groups = some (0, 8) := hgroups ▸ by decide
    rw [hrun] at hlength
    cases hlength
    rw [hgroups]
    rfl
  · intro hrest
    have hgroups := groups_eq hrun
    rwa [hrest] at hgroups

/-- The address is one if only that follows the groups left out. -/
theorem groups_eq_one_iff {address : Ipv6} {length : ℕ}
    (hrun : compressedRun address.groups = some (0, length)) :
    address.groups = List.replicate 7 0 ++ [1] ↔ address.groups.drop length = [1] := by
  constructor
  · intro hgroups
    have hlength : compressedRun address.groups = some (0, 7) := hgroups ▸ by decide
    rw [hrun] at hlength
    cases hlength
    rw [hgroups]
    rfl
  · intro hrest
    have hgroups := groups_eq hrun
    rwa [hrest] at hgroups

/-- The ranges of an address whose first groups are not left out. -/
theorem isBlocked_group {address : Ipv6}
    (h : ∀ length, compressedRun address.groups ≠ some (0, length)) :
    address.isBlocked = decide
      (address.first.toNat / 256 = 0xfd ∨ address.first.toNat / 64 = 0x3fa) := by
  have hmapped : address.mapped = none := by
    cases hembed : address.mapped with
    | none => rfl
    | some embed =>
      obtain ⟨high, low, hgroups, -⟩ := groups_of_mapped hembed
      exact absurd (hgroups ▸ compressedRun_mapped high low) (h 5)
  have hzero : address.groups ≠ List.replicate 8 0 := fun hgroups =>
    h 8 (hgroups ▸ by decide)
  have hone : address.groups ≠ List.replicate 7 0 ++ [1] := fun hgroups =>
    h 7 (hgroups ▸ by decide)
  unfold Ipv6.isBlocked
  simp only [hmapped, hzero, hone, false_or]

/-- The ranges of an address whose first groups are zero. -/
theorem isBlocked_zero {address : Ipv6} {length : ℕ}
    (hrun : compressedRun address.groups = some (0, length))
    (hmapped : ∀ high low, address.groups.drop length ≠ [0xffff, high, low]) :
    address.isBlocked =
      decide (address.groups.drop length = [] ∨ address.groups.drop length = [1]) := by
  have hnone : address.mapped = none := by
    cases hembed : address.mapped with
    | none => rfl
    | some embed =>
      obtain ⟨high, low, hgroups, -⟩ := groups_of_mapped hembed
      rw [hgroups, compressedRun_mapped] at hrun
      cases hrun
      exact absurd (by rw [hgroups]; rfl) (hmapped high low)
  unfold Ipv6.isBlocked
  simp only [hnone, first_of_compressedRun hrun, groups_eq_zeros_iff hrun,
    groups_eq_one_iff hrun]
  rw [decide_eq_decide]
  simp

/-- The ranges of a mapped address are those of the address in it. -/
theorem isBlocked_mapped {address : Ipv6} {length : ℕ} {high low : UInt16}
    (hrun : compressedRun address.groups = some (0, length))
    (hrest : address.groups.drop length = [0xffff, high, low]) :
    address.isBlocked = (embedded high low).isBlocked := by
  have hgroups := groups_eq hrun
  rw [hrest] at hgroups
  have hmapped : address.mapped = some (embedded high low) := by
    unfold Ipv6.mapped
    rw [hgroups]
    rfl
  unfold Ipv6.isBlocked
  rw [hmapped]

/-! ## Where version 6 is judged right -/

/-- The addresses that are blocked for a first group of two or three digits. -/
def Overblocked (address : Ipv6) : Prop :=
  address.first.toNat = 0xfd ∨ address.first.toNat / 16 = 0xfd

/-- The link-local addresses that are not of the first group `fe80`. -/
def LinkLocalRest (address : Ipv6) : Prop :=
  0xfe81 ≤ address.first.toNat ∧ address.first.toNat ≤ 0xfebf

/-- The addresses that are rechecked as hosts of URLs though they are not mapped ones: what
follows the group `ffff` is no address, or one group that is read as a blocked host. -/
def RecheckedWrongly (address : Ipv6) : Prop :=
  ∃ length tail, compressedRun address.groups = some (0, length) ∧
    address.groups.drop length = 0xffff :: tail ∧
    (3 ≤ tail.length ∨ ∃ group, tail = [group] ∧ (group = 0 ∨ FdText group ∨ group = 0xfe80))

/-- The addresses of version 6 that the guard judges wrong as literals. -/
def Misjudged (address : Ipv6) : Prop :=
  Overblocked address ∨ LinkLocalRest address ∨ RecheckedWrongly address

/-- The text of an address whose zeros are followed by `ffff` and other groups. -/
theorem mappedText {tail : List UInt16} (hne : tail ≠ []) :
    js "::" ++ join (unit ':') ((0xffff :: tail).map hexText) =
      js "::ffff:" ++ join (unit ':') (tail.map hexText) := by
  obtain ⟨group, tail, rfl⟩ := List.exists_cons_of_ne_nil hne
  have hcolons : js "::ffff:" = js "::" ++ (hexText 0xffff ++ [unit ':']) := by decide
  rw [List.map_cons, List.map_cons, join_cons_cons, hcolons]
  simp only [List.append_assoc, List.cons_append, List.nil_append]

/-- A literal of version 6 that begins with a group is judged right exactly if its group is. -/
theorem isInternalUrl_ipv6_group {urlStr : JsString} {address : Ipv6}
    (hparse : parseUrl urlStr = some (.ipv6 address))
    (hrun : ∀ length, compressedRun address.groups ≠ some (0, length)) (calls : ℕ) :
    isInternalUrl parseUrl (calls + 1) urlStr = some address.isBlocked ↔ ¬ Misjudged address := by
  have hrechecked : ¬ RecheckedWrongly address := by
    rintro ⟨length, _, hlength, -⟩
    exact hrun length hlength
  have hbound := address.first.toNat_lt
  rw [isInternalUrl_eq hparse, isInternalHostname_ipv6Text hrun, isBlocked_group hrun,
    Option.some_inj, decide_eq_decide, ← UInt16.toNat_inj]
  unfold Misjudged Overblocked LinkLocalRest FdText
  simp only [UInt16.reduceToNat, hrechecked, or_false]
  omega

/-- A literal of version 6 whose first groups are zero is judged right unless it is rechecked
wrongly. -/
theorem isInternalUrl_ipv6_zero (hurl : UrlStandard parseUrl) {urlStr : JsString} {address : Ipv6}
    (hparse : parseUrl urlStr = some (.ipv6 address)) {length : ℕ}
    (hrun : compressedRun address.groups = some (0, length)) (calls : ℕ) :
    isInternalUrl parseUrl (calls + 2) urlStr = some address.isBlocked ↔ ¬ Misjudged address := by
  have hfirst := first_of_compressedRun hrun
  have hmisjudged : Misjudged address ↔ RecheckedWrongly address := by
    unfold Misjudged Overblocked LinkLocalRest
    rw [hfirst]
    simp
  rw [isInternalUrl_eq hparse, ipv6Text_of_compressed hrun, hmisjudged]
  have hrechecked : RecheckedWrongly address ↔ ∃ tail, address.groups.drop length = 0xffff :: tail ∧
      (3 ≤ tail.length ∨ ∃ group, tail = [group] ∧ (group = 0 ∨ FdText group ∨ group = 0xfe80)) := by
    unfold RecheckedWrongly
    simp only [hrun, Option.some.injEq, Prod.mk.injEq, true_and]
    constructor
    · rintro ⟨_, tail, rfl, hrest⟩
      exact ⟨tail, hrest⟩
    · rintro ⟨tail, hrest⟩
      exact ⟨length, tail, rfl, hrest⟩
  by_cases hmapped : ∃ tail, tail ≠ [] ∧ address.groups.drop length = 0xffff :: tail
  · obtain ⟨tail, hne, hrest⟩ := hmapped
    have hexact : RecheckedWrongly address ↔
        3 ≤ tail.length ∨ ∃ group, tail = [group] ∧ (group = 0 ∨ FdText group ∨ group = 0xfe80) := by
      rw [hrechecked, hrest]
      constructor
      · rintro ⟨tail', htail, hwrong⟩
        rwa [(List.cons.inj htail).2]
      · exact fun hwrong => ⟨tail, rfl, hwrong⟩
    rw [hrest, mappedText hne, isInternalHostname_mapped, hexPair_join hne, hexact]
    match tail, hne, hrest with
    | [group], _, hrest =>
      have hblocked : address.isBlocked = false := by
        rw [isBlocked_zero hrun (by simp [hrest]), hrest]
        simp
      dsimp only
      rw [List.map_cons, List.map_nil, join_singleton, isInternalUrl_group hurl, hblocked,
        Option.some_inj, decide_eq_false_iff_not]
      simp
    | [high, low], _, hrest =>
      dsimp only
      rw [dottedText_hexText, isInternalUrl_ipv4 (hurl.address _), isBlocked_mapped hrun hrest]
      simp
    | first :: second :: third :: others, _, hrest =>
      have hblocked : address.isBlocked = false := by
        rw [isBlocked_zero hrun (by simp [hrest]), hrest]
        simp
      have hlength : 3 ≤ (first :: second :: third :: others).length := by simp
      dsimp only
      unfold isInternalUrl
      rw [hurl.groups _ hlength, hblocked]
      simp
  · have hnot : ¬ RecheckedWrongly address := by
      rw [hrechecked]
      rintro ⟨tail, hrest, hwrong⟩
      rcases tail with _ | ⟨group, tail⟩
      · simp at hwrong
      · exact hmapped ⟨group :: tail, List.cons_ne_nil _ _, hrest⟩
    have hother (tail : List UInt16) (hne : tail ≠ []) :
        address.groups.drop length ≠ 0xffff :: tail :=
      fun hrest => hmapped ⟨tail, hne, hrest⟩
    rw [isInternalHostname_colons (groups_of_compressedRun hrun).2.2 hother,
      isBlocked_zero hrun fun high low => hother [high, low] (List.cons_ne_nil _ _)]
    exact iff_of_true rfl hnot

/-- A literal of version 6 is judged right exactly if it is not one of three kinds. -/
theorem isInternalUrl_ipv6 (hurl : UrlStandard parseUrl) {urlStr : JsString} {address : Ipv6}
    (hparse : parseUrl urlStr = some (.ipv6 address)) (calls : ℕ) :
    isInternalUrl parseUrl (calls + 2) urlStr = some address.isBlocked ↔ ¬ Misjudged address := by
  by_cases hrun : ∃ length, compressedRun address.groups = some (0, length)
  · obtain ⟨length, hrun⟩ := hrun
    exact isInternalUrl_ipv6_zero hurl hparse hrun calls
  · exact isInternalUrl_ipv6_group hparse (fun length h => hrun ⟨length, h⟩) (calls + 1)

end

end T3x.Network
