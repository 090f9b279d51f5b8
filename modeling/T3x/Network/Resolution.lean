import T3x.Network.Exactness

/-!
# Resolved names

The addresses of a name reach the guard as texts of the resolver, which writes
an address of version 4 in the last groups of some addresses of version 6. The
texts are tested by one function only, so mapped addresses are missed.
-/

namespace T3x.Network

open Js

/-! ## The resolver -/

/-- The text of a resolved address of version 6. -/
def inetNtop (address : Ipv6) : JsString :=
  match compressedRun address.groups, address.groups.drop 6 with
  | some (0, 6), [high, low] => js "::" ++ ipv4Text (embedded high low)
  | some (0, 5), [high, low] =>
    if address.groups[5]? = some 0xffff then js "::ffff:" ++ ipv4Text (embedded high low)
    else ipv6Text address
  | _, _ => ipv6Text address

/-- An embedded address of version 4 is none of the blocked texts. -/
theorem isInternalIP_embedded (start : JsString) (address : Ipv4) :
    isInternalIP (js "::" ++ (start ++ ipv4Text address)) = false := by
  have hdot : unit '.' ∈ start ++ ipv4Text address := by
    obtain ⟨a, b, c, d, rfl⟩ := address.eq_of
    rw [ipv4Text_of]
    simp
  have hne (s : JsString) (hs : unit '.' ∉ s) : start ++ ipv4Text address ≠ s := by
    rintro rfl
    exact hs hdot
  rw [isInternalIP_colons]
  simp only [hne [] (by decide), hne (js "0") (by decide), hne (js "1") (by decide), or_self,
    decide_false]

/-- The addresses that the guard blocks when they are resolved. -/
def Caught (address : Ipv6) : Prop :=
  address.groups = List.replicate 8 0 ∨ address.groups = List.replicate 7 0 ++ [1] ∨
    FdText address.first ∨ address.first = 0xfe80

/-- The test of a text that leaves the first groups out. -/
theorem isInternalIP_zero {address : Ipv6} {length : ℕ}
    (hrun : compressedRun address.groups = some (0, length)) :
    isInternalIP (ipv6Text address) = true ↔ Caught address := by
  have h0 : js "0" = hexText 0 := by decide
  have h1 : js "1" = hexText 1 := by decide
  have hzero := (groups_of_compressedRun hrun).2.2
  have hnot : address.groups.drop length ≠ [0] := fun h => hzero (by rw [h]; rfl)
  rw [ipv6Text_of_compressed hrun, isInternalIP_colons, h0, h1]
  unfold Caught
  rw [first_of_compressedRun hrun, groups_eq_zeros_iff hrun, groups_eq_one_iff hrun]
  simp only [join_eq_nil, join_eq_hexText, hnot, false_or, decide_eq_true_eq]
  simp [FdText]

/-- A resolved address is blocked by its groups. -/
theorem isInternalIP_inetNtop (address : Ipv6) :
    isInternalIP (inetNtop address) = true ↔ Caught address := by
  have hmissed {length : ℕ} (hrun : compressedRun address.groups = some (0, length))
      (hlength : length < 7) : ¬ Caught address := by
    have hgroups := (groups_of_compressedRun hrun).2.1
    have hdrop : 2 ≤ (address.groups.drop length).length := by
      rw [List.length_drop, address.length_eq]
      omega
    unfold Caught
    rw [first_of_compressedRun hrun, groups_eq_zeros_iff hrun, groups_eq_one_iff hrun]
    rintro (h | h | h | h)
    · rw [h] at hdrop
      cases hdrop
    · rw [h] at hdrop
      exact absurd hdrop (by decide)
    · exact absurd h (by decide)
    · cases h
  have hplain : isInternalIP (ipv6Text address) = true ↔ Caught address := by
    by_cases hrun : ∃ length, compressedRun address.groups = some (0, length)
    · obtain ⟨length, hrun⟩ := hrun
      exact isInternalIP_zero hrun
    · have hrun' (length : ℕ) : compressedRun address.groups ≠ some (0, length) :=
        fun h => hrun ⟨length, h⟩
      have hzero : address.groups ≠ List.replicate 8 0 := fun h => hrun' 8 (h ▸ by decide)
      have hone : address.groups ≠ List.replicate 7 0 ++ [1] := fun h => hrun' 7 (h ▸ by decide)
      rw [isInternalIP_ipv6Text hrun', decide_eq_true_eq]
      unfold Caught
      simp only [hzero, hone, false_or]
  unfold inetNtop
  split
  next high low hrun hrest =>
    have htext := isInternalIP_embedded [] (embedded high low)
    rw [List.nil_append] at htext
    rw [htext]
    exact iff_of_false Bool.false_ne_true (hmissed hrun (by omega))
  next hrun hrest =>
    split_ifs
    · rw [show js "::ffff:" = js "::" ++ js "ffff:" by decide, List.append_assoc,
        isInternalIP_embedded]
      exact iff_of_false Bool.false_ne_true (hmissed hrun (by omega))
    · exact hplain
  next => exact hplain

/-! ## Names -/

/-- The blocked addresses that the guard misses when they are resolved. -/
def Missed (address : Ipv6) : Prop :=
  (∃ embed, address.mapped = some embed ∧ embed.isBlocked = true) ∨ LinkLocalRest address

/-- A resolved address is caught if it is blocked and not missed, or overblocked. -/
theorem caught_iff (address : Ipv6) :
    Caught address ↔ (address.isBlocked = true ∧ ¬ Missed address) ∨ Overblocked address := by
  have hbound := address.first.toNat_lt
  unfold Caught Missed Overblocked LinkLocalRest Ipv6.isBlocked FdText
  cases hembed : address.mapped with
  | none =>
    simp only [reduceCtorEq, false_and, exists_false, false_or, decide_eq_true_eq,
      ← UInt16.toNat_inj, UInt16.reduceToNat]
    by_cases hzero : address.groups = List.replicate 8 0
    · have hfirst : address.first = 0 := by
        unfold Ipv6.first
        rw [hzero]
        rfl
      simp [hzero, hfirst]
    · by_cases hone : address.groups = List.replicate 7 0 ++ [1]
      · have hfirst : address.first = 0 := by
          unfold Ipv6.first
          rw [hone]
          rfl
        simp [hone, hfirst]
      · simp only [hzero, hone, false_or]
        omega
  | some embed =>
    obtain ⟨high, low, hgroups, -⟩ := groups_of_mapped hembed
    have hfirst : address.first = 0 := by
      unfold Ipv6.first
      rw [hgroups]
      rfl
    rw [hgroups, hfirst]
    simp

/-- A missed address is blocked. -/
theorem isBlocked_of_missed {address : Ipv6} (h : Missed address) : address.isBlocked = true := by
  unfold Ipv6.isBlocked
  cases hembed : address.mapped with
  | none =>
    rcases h with ⟨embed, hsome, -⟩ | hlink
    · rw [hembed] at hsome
      cases hsome
    · unfold LinkLocalRest at hlink
      simp only [decide_eq_true_eq]
      omega
  | some embed =>
    obtain ⟨high, low, hgroups, -⟩ := groups_of_mapped hembed
    rcases h with ⟨embed', hsome, hblocked⟩ | hlink
    · rw [hembed] at hsome
      obtain rfl := Option.some.inj hsome
      exact hblocked
    · unfold LinkLocalRest Ipv6.first at hlink
      rw [hgroups] at hlink
      change 0xfe81 ≤ (0 : UInt16).toNat ∧ _ at hlink
      exact absurd hlink.1 (by decide)

/-- What the guard is for, at a URL with a host: an address is blocked if it lies in the blocked
ranges, a name is blocked if one of its addresses does. -/
def Exact (parseUrl : JsString → Option UrlHost) (resolve4 : JsString → List Ipv4)
    (resolve6 : JsString → List Ipv6) (calls : ℕ) (urlStr : JsString) : UrlHost → Prop
  | .ipv4 address => isInternalUrl parseUrl calls urlStr = some address.isBlocked
  | .ipv6 address => isInternalUrl parseUrl calls urlStr = some address.isBlocked
  | .domain name =>
    (name ≠ js "localhost" → name ≠ js "metadata.google.internal" →
      isInternalUrl parseUrl calls urlStr = some false) ∧
    isInternalUrlResolved parseUrl (fun name => (resolve4 name).map ipv4Text)
        (fun name => (resolve6 name).map inetNtop) calls urlStr =
      some ((resolve4 name).any Ipv4.isBlocked || (resolve6 name).any Ipv6.isBlocked)
  | .other _ => True

/-- Where the resolved addresses of a name are judged right: a missed one comes with one that is
caught, an overblocked one with one that is blocked. -/
def Accompanied (addresses4 : List Ipv4) (addresses6 : List Ipv6) : Prop :=
  ((∃ address ∈ addresses6, Missed address) →
    (∃ address ∈ addresses4, address.isBlocked = true) ∨ ∃ address ∈ addresses6, Caught address) ∧
  ((∃ address ∈ addresses6, Overblocked address) →
    (∃ address ∈ addresses4, address.isBlocked = true) ∨
      ∃ address ∈ addresses6, address.isBlocked = true)

/-- The hosts for which the guard is exact. -/
def WellJudged (resolve4 : JsString → List Ipv4) (resolve6 : JsString → List Ipv6) :
    UrlHost → Prop
  | .ipv4 _ => True
  | .ipv6 address => ¬ Misjudged address
  | .domain name =>
    looksBlocked name = false ∧
    if name = js "localhost" ∨ name = js "metadata.google.internal" then
      (∃ address ∈ resolve4 name, address.isBlocked = true) ∨
        ∃ address ∈ resolve6 name, address.isBlocked = true
    else if looksLikeAddress name = true then
      (∀ address ∈ resolve4 name, address.isBlocked = false) ∧
        ∀ address ∈ resolve6 name, address.isBlocked = false
    else Accompanied (resolve4 name) (resolve6 name)
  | .other _ => True

/-- The texts of resolved addresses tell that one is blocked exactly if those that are missed or
overblocked are accompanied. -/
theorem any_isInternalIP_iff (addresses4 : List Ipv4) (addresses6 : List Ipv6) :
    (addresses4.map ipv4Text ++ addresses6.map inetNtop).any isInternalIP =
        (addresses4.any Ipv4.isBlocked || addresses6.any Ipv6.isBlocked) ↔
      Accompanied addresses4 addresses6 := by
  have htexts : (addresses4.map ipv4Text ++ addresses6.map inetNtop).any isInternalIP = true ↔
      (∃ address ∈ addresses4, address.isBlocked = true) ∨
        ∃ address ∈ addresses6, Caught address := by
    rw [List.any_append, Bool.or_eq_true, List.any_map, List.any_map, List.any_eq_true,
      List.any_eq_true]
    simp only [Function.comp_apply, isInternalIP_ipv4Text, isInternalIP_inetNtop]
  have hranges : (addresses4.any Ipv4.isBlocked || addresses6.any Ipv6.isBlocked) = true ↔
      (∃ address ∈ addresses4, address.isBlocked = true) ∨
        ∃ address ∈ addresses6, address.isBlocked = true := by
    rw [Bool.or_eq_true, List.any_eq_true, List.any_eq_true]
  rw [Bool.eq_iff_iff, htexts, hranges]
  unfold Accompanied
  constructor
  · refine fun h => ⟨fun ⟨address, hmem, hmissed⟩ => h.mpr (Or.inr ⟨address, hmem, ?_⟩),
      fun ⟨address, hmem, hover⟩ => h.mp (Or.inr ⟨address, hmem, ?_⟩)⟩
    · exact isBlocked_of_missed hmissed
    · exact (caught_iff address).mpr (Or.inr hover)
  · rintro ⟨hmissed, hover⟩
    constructor
    · rintro (h | ⟨address, hmem, hcaught⟩)
      · exact Or.inl h
      · rcases (caught_iff address).mp hcaught with ⟨hblocked, -⟩ | hwrong
        · exact Or.inr ⟨address, hmem, hblocked⟩
        · exact hover ⟨address, hmem, hwrong⟩
    · rintro (h | ⟨address, hmem, hblocked⟩)
      · exact Or.inl h
      · by_cases hmiss : Missed address
        · exact hmissed ⟨address, hmem, hmiss⟩
        · exact Or.inr ⟨address, hmem, (caught_iff address).mpr (Or.inl ⟨hblocked, hmiss⟩)⟩

/-- The guard is exact for a name exactly if it is judged well. -/
theorem exact_name_iff {parseUrl : JsString → Option UrlHost} (hurl : UrlStandard parseUrl)
    (resolve4 : JsString → List Ipv4) (resolve6 : JsString → List Ipv6) {urlStr name : JsString}
    (hparse : parseUrl urlStr = some (.domain name)) (calls : ℕ) :
    Exact parseUrl resolve4 resolve6 (calls + 1) urlStr (.domain name) ↔
      WellJudged resolve4 resolve6 (.domain name) := by
  obtain ⟨-, hopen, hclose⟩ := hurl.domain urlStr name hparse
  have hname : stripBrackets (UrlHost.domain name).hostname = name :=
    stripBrackets_of_not_mem hopen hclose
  have hsync := isInternalUrl_name hurl hparse calls
  have hranges : ((resolve4 name).any Ipv4.isBlocked || (resolve6 name).any Ipv6.isBlocked) =
      true ↔ (∃ address ∈ resolve4 name, address.isBlocked = true) ∨
        ∃ address ∈ resolve6 name, address.isBlocked = true := by
    rw [Bool.or_eq_true, List.any_eq_true, List.any_eq_true]
  unfold Exact WellJudged isInternalUrlResolved
  dsimp only
  rw [hsync]
  by_cases hspecial : name = js "localhost" ∨ name = js "metadata.google.internal"
  · have hlooks : looksBlocked name = false := by
      rcases hspecial with rfl | rfl <;> decide
    have hrefused : (name = js "localhost" ∨ name = js "metadata.google.internal" ∨
        looksBlocked name = true) := by
      rw [← or_assoc]
      exact Or.inl hspecial
    rw [if_pos hspecial, decide_eq_true hrefused, ← hranges, hlooks]
    constructor
    · exact fun h => ⟨rfl, (Option.some.inj h.2).symm⟩
    · refine fun h => ⟨fun hlocal hmetadata => ?_, congrArg some h.2.symm⟩
      exact absurd hspecial (not_or.mpr ⟨hlocal, hmetadata⟩)
  · obtain ⟨hlocal, hmetadata⟩ := not_or.mp hspecial
    rw [if_neg hspecial]
    simp only [hlocal, hmetadata, false_or, Bool.decide_eq_true, ne_eq, not_false_eq_true,
      forall_const]
    cases hlooks : looksBlocked name with
    | true => exact iff_of_false (fun h => by cases h.1) (fun h => by cases h.1)
    | false =>
      simp only [hparse, hname]
      refine and_congr (by simp) ?_
      split_ifs with hlike
      · rw [Option.some_inj, eq_comm, Bool.eq_false_iff, Ne, hranges]
        simp only [not_or, not_exists, not_and, Bool.not_eq_true]
      · rw [Option.some_inj]
        exact any_isInternalIP_iff (resolve4 name) (resolve6 name)

/-- The guard is exact exactly for the hosts that it judges well. -/
theorem isInternalUrl_exact_iff {parseUrl : JsString → Option UrlHost}
    (hurl : UrlStandard parseUrl) (resolve4 : JsString → List Ipv4)
    (resolve6 : JsString → List Ipv6) {urlStr : JsString} {host : UrlHost}
    (hparse : parseUrl urlStr = some host) (calls : ℕ) :
    Exact parseUrl resolve4 resolve6 (calls + 2) urlStr host ↔
      WellJudged resolve4 resolve6 host := by
  cases host with
  | ipv4 address => exact iff_of_true (isInternalUrl_ipv4 hparse (calls + 1)) trivial
  | ipv6 address => exact isInternalUrl_ipv6 hurl hparse calls
  | other text => exact Iff.rfl
  | domain name => exact exact_name_iff hurl resolve4 resolve6 hparse (calls + 1)

/-! ## A parser -/

/-- A host of numbers and names: four numbers are an address, one number is too. -/
def plainHost (host : JsString) : Option UrlHost :=
  if unit ':' ∈ host ∨ unit '[' ∈ host ∨ unit ']' ∈ host then none
  else
    match split (unit '.') host with
    | [a, b, c, d] =>
      if [a, b, c, d].all (fun part => part.all isDigit) then
        some (.ipv4 (.of (digitsValue a).toUInt8 (digitsValue b).toUInt8 (digitsValue c).toUInt8
          (digitsValue d).toUInt8))
      else some (.domain host)
    | [a] =>
      if a.all isDigit then some (.ipv4 (embedded 0 (digitsValue a).toUInt16))
      else some (.domain host)
    | _ => some (.domain host)

/-- URLs of plain hosts, and of one address of version 6. -/
def plainUrl (urlStr : JsString) : Option UrlHost :=
  let host := (urlStr.drop 7).dropLast
  if host = js "[fe90::1]" then some (.ipv6 ⟨[0xfe90, 0, 0, 0, 0, 0, 0, 1], rfl⟩)
  else plainHost host

/-- The host of a URL. -/
theorem plainUrl_httpUrl {host : JsString} (h : host.head? ≠ some (unit '[')) :
    plainUrl (httpUrl host) = plainHost host := by
  have hhost : ((httpUrl host).drop 7).dropLast = host := by
    unfold httpUrl
    rw [List.append_assoc, List.drop_left' (by decide)]
    exact List.dropLast_concat
  have hne : host ≠ js "[fe90::1]" := by
    rintro rfl
    exact h rfl
  unfold plainUrl
  dsimp only
  rw [hhost, if_neg hne]

/-- The name of a plain host is the host. -/
theorem plainHost_domain {host name : JsString} (h : plainHost host = some (.domain name)) :
    unit ':' ∉ name ∧ unit '[' ∉ name ∧ unit ']' ∉ name := by
  unfold plainHost at h
  split_ifs at h with hforbidden
  rw [not_or, not_or] at hforbidden
  split at h
  · split_ifs at h
    · cases h
    · cases h
      exact hforbidden
  · split_ifs at h
    · cases h
    · cases h
      exact hforbidden
  · cases h
    exact hforbidden

/-- A hexadecimal text holds no bracket. -/
theorem bracket_not_mem_hexText (group : UInt16) :
    unit '[' ∉ hexText group ∧ unit ']' ∉ hexText group :=
  ⟨not_mem_hexText (by decide), not_mem_hexText (by decide)⟩

/-- The parser does what is standard. -/
theorem plainUrl_standard : UrlStandard plainUrl where
  domain urlStr name h := by
    unfold plainUrl at h
    dsimp only at h
    split_ifs at h
    · cases h
    · exact plainHost_domain h
  address address := by
    have hnot {u : UInt16} (hdigit : isDigit u = false) (hdot : u ≠ unit '.') :
        u ∉ ipv4Text address := not_mem_ipv4Text hdigit hdot
    rw [plainUrl_httpUrl fun h => hnot (by decide) (by decide) (List.mem_of_head? h)]
    have hsplit := split_ipv4Text address
    obtain ⟨a, b, c, d, rfl⟩ := address.eq_of
    have hdigits (n : ℕ) : (natToString n).all isDigit = true :=
      List.all_eq_true.mpr fun u hu => isDigit_of_mem_natToString hu
    have hoctet (octet : UInt8) : octet.toNat.toUInt8 = octet := UInt8.ofNat_toNat
    unfold plainHost
    rw [if_neg (not_or.mpr ⟨hnot (by decide) (by decide),
      not_or.mpr ⟨hnot (by decide) (by decide), hnot (by decide) (by decide)⟩⟩), hsplit]
    simp only [Ipv4.of, List.map_cons, List.map_nil, List.all_cons, List.all_nil, hdigits,
      Bool.and_self, if_true, digitsValue_natToString, hoctet]
  group group := by
    obtain ⟨hopen, hclose⟩ := bracket_not_mem_hexText group
    rw [plainUrl_httpUrl fun h => hopen (List.mem_of_head? h)]
    unfold plainHost
    rw [if_neg (not_or.mpr ⟨colon_not_mem_hexText group, not_or.mpr ⟨hopen, hclose⟩⟩),
      split_of_not_mem (dot_not_mem_hexText group)]
  groups groups hlength := by
    obtain ⟨first, second, rest, rfl⟩ : ∃ first second rest, groups = first :: second :: rest := by
      rcases groups with _ | ⟨first, _ | ⟨second, rest⟩⟩
      · simp at hlength
      · simp at hlength
      · exact ⟨first, second, rest, rfl⟩
    have hcolon : unit ':' ∈ join (unit ':') ((first :: second :: rest).map hexText) := by
      rw [List.map_cons, List.map_cons, join_cons_cons]
      simp
    obtain ⟨d, hd, hhead⟩ := exists_head?_hexText first
    have hbracket : ∀ d < 16, hexDigit d ≠ unit '[' := by decide
    rw [plainUrl_httpUrl]
    · unfold plainHost
      rw [if_pos (Or.inl hcolon)]
    · rw [List.map_cons, List.map_cons, join_cons_cons, List.head?_append, hhead]
      exact fun h => hbracket d hd (Option.some.inj h)

/-- A name that resolves to a private address is blocked. -/
theorem isInternalUrl_exact_private :
    Exact plainUrl (fun _ => [.of 10 0 0 1]) (fun _ => []) 2 (httpUrl (js "db.example"))
      (.domain (js "db.example")) :=
  (isInternalUrl_exact_iff plainUrl_standard (fun _ => [.of 10 0 0 1]) (fun _ => [])
    (by rfl) 0).mpr (by
      refine ⟨by decide, ?_⟩
      rw [if_neg (by decide), if_neg (by decide)]
      refine ⟨fun ⟨_, hmem, _⟩ => ?_, fun ⟨_, hmem, _⟩ => ?_⟩
      · cases hmem
      · cases hmem)

/-- The guard is not exact: it lets a link-local address pass. -/
theorem not_isInternalUrl_exact :
    ¬ ∀ parseUrl, UrlStandard parseUrl → ∀ resolve4 resolve6 urlStr host,
      parseUrl urlStr = some host →
        ∀ calls, Exact parseUrl resolve4 resolve6 (calls + 2) urlStr host := by
  intro h
  have hexact := h plainUrl plainUrl_standard (fun _ => []) (fun _ => [])
    (js "http://[fe90::1]/") (.ipv6 ⟨[0xfe90, 0, 0, 0, 0, 0, 0, 1], rfl⟩) (by rfl) 0
  have hpass : isInternalUrl plainUrl 2 (js "http://[fe90::1]/") = some false := by decide
  have hblocked : Ipv6.isBlocked ⟨[0xfe90, 0, 0, 0, 0, 0, 0, 1], rfl⟩ = true := by decide
  unfold Exact at hexact
  dsimp only at hexact
  rw [hpass, hblocked] at hexact
  cases hexact

end T3x.Network
