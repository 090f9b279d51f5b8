import T3x.Js.Equal

/-!
# JSON text

The text that `JSON.stringify` writes for strings, and the text of a whole value
with the members of every object arranged in some order. No text of a value is
a proper part of another up to its delimiter, so the text determines the value
up to the order of members and the sign of zero.
-/

namespace Js

/-! ## Strings in quotes -/

/-- A lowercase hexadecimal digit. -/
def hexDigit (d : ℕ) : UInt16 := if d < 10 then 48 + d.toUInt16 else 87 + d.toUInt16

/-- The number that a lowercase hexadecimal digit denotes. -/
def hexValue (u : UInt16) : ℕ := if u.toNat < 58 then u.toNat - 48 else u.toNat - 87

/-- The escape `\uXXXX` of a code unit. -/
def hexEscape (u : UInt16) : JsString :=
  let n := u.toNat
  [unit '\\', unit 'u', hexDigit (n / 4096), hexDigit (n / 256 % 16), hexDigit (n / 16 % 16),
    hexDigit (n % 16)]

/-- The code units with a one-letter escape, next to their letters. -/
def shortEscapes : List (UInt16 × UInt16) :=
  [(unit '"', unit '"'), (unit '\\', unit '\\'), (8, unit 'b'), (12, unit 'f'), (10, unit 'n'),
    (13, unit 'r'), (9, unit 't')]

/-- A code unit as it stands between quotes. -/
def escapeUnit (u : UInt16) : JsString :=
  match shortEscapes.find? (fun e => e.1 == u) with
  | some e => [unit '\\', e.2]
  | none => if u < 32 || isHighSurrogate u || isLowSurrogate u then hexEscape u else [u]

/-- A string as it stands between quotes: a lone surrogate is escaped. -/
def quoteBody : JsString → JsString
  | [] => []
  | [u] => escapeUnit u
  | u :: v :: s =>
    if isHighSurrogate u && isLowSurrogate v then u :: v :: quoteBody s
    else escapeUnit u ++ quoteBody (v :: s)

/-- `JSON.stringify(s)` for a string. -/
def quote (s : JsString) : JsString := unit '"' :: (quoteBody s ++ [unit '"'])

/-- Read a string up to its closing quote: the string and the text behind it. -/
def unquote : JsString → Option (JsString × JsString)
  | [] => none
  | c :: text =>
    if c = unit '"' then some ([], text)
    else if c = unit '\\' then
      match text with
      | [] => none
      | e :: rest =>
        if e = unit 'u' then
          match rest with
          | h₃ :: h₂ :: h₁ :: h₀ :: rest' =>
            let u := (4096 * hexValue h₃ + 256 * hexValue h₂ + 16 * hexValue h₁ +
              hexValue h₀).toUInt16
            (unquote rest').map fun r => (u :: r.1, r.2)
          | _ => none
        else
          match shortEscapes.find? (fun x => x.2 == e) with
          | some x => (unquote rest).map fun r => (x.1 :: r.1, r.2)
          | none => none
    else (unquote text).map fun r => (c :: r.1, r.2)

/-- A hexadecimal digit reads back as its number. -/
theorem hexValue_hexDigit {d : ℕ} (hd : d < 16) : hexValue (hexDigit d) = d := by
  interval_cases d <;> rfl

/-- Reading an escaped code unit. -/
theorem unquote_hexEscape (u : UInt16) (text : JsString) :
    unquote (hexEscape u ++ text) = (unquote text).map fun r => (u :: r.1, r.2) := by
  have hu : u.toNat < 65536 := u.toNat_lt
  have hvalue : (4096 * hexValue (hexDigit (u.toNat / 4096)) +
      256 * hexValue (hexDigit (u.toNat / 256 % 16)) +
      16 * hexValue (hexDigit (u.toNat / 16 % 16)) + hexValue (hexDigit (u.toNat % 16))).toUInt16 =
      u := by
    rw [hexValue_hexDigit (by omega), hexValue_hexDigit (by omega), hexValue_hexDigit (by omega),
      hexValue_hexDigit (by omega)]
    have hsum : 4096 * (u.toNat / 4096) + 256 * (u.toNat / 256 % 16) + 16 * (u.toNat / 16 % 16) +
        u.toNat % 16 = u.toNat := by omega
    rw [hsum]
    exact UInt16.ofNat_toNat
  have h1 : ¬ unit '\\' = unit '"' := by decide
  simp only [hexEscape, List.cons_append, List.nil_append]
  rw [unquote.eq_def]
  simp only [if_neg h1, if_true, hvalue]

/-- A code unit that needs no escape is read as it stands. -/
theorem unquote_plain {u : UInt16} (hquote : u ≠ unit '"') (hslash : u ≠ unit '\\')
    (text : JsString) : unquote (u :: text) = (unquote text).map fun r => (u :: r.1, r.2) := by
  rw [unquote.eq_def]
  simp only [if_neg hquote, if_neg hslash]

/-- The closing quote ends the string. -/
theorem unquote_close (text : JsString) : unquote (unit '"' :: text) = some ([], text) := by
  rw [unquote.eq_def]
  simp only [if_true]

/-- Reading a code unit as it stands between quotes. -/
theorem unquote_escapeUnit (u : UInt16) (text : JsString) :
    unquote (escapeUnit u ++ text) = (unquote text).map fun r => (u :: r.1, r.2) := by
  unfold escapeUnit
  cases hfind : shortEscapes.find? (fun e => e.1 == u) with
  | some e =>
    have hmem := List.mem_of_find?_eq_some hfind
    have hu : e.1 = u := by simpa using List.find?_some hfind
    have hletters : (shortEscapes.all fun e => decide (e.2 ≠ unit 'u' ∧
        shortEscapes.find? (fun x => x.2 == e.2) = some e)) = true := by decide
    obtain ⟨hne, hback⟩ := of_decide_eq_true (List.all_eq_true.mp hletters e hmem)
    have h1 : ¬ unit '\\' = unit '"' := by decide
    simp only [List.cons_append, List.nil_append]
    rw [unquote.eq_def]
    simp only [if_neg h1, if_true, hne, if_false, hback, hu]
  | none =>
    simp only
    split_ifs
    · exact unquote_hexEscape u text
    · have hnot := List.find?_eq_none.mp hfind
      apply unquote_plain
      · rintro rfl
        exact hnot (unit '"', unit '"') (by decide) (by decide)
      · rintro rfl
        exact hnot (unit '\\', unit '\\') (by decide) (by decide)

/-- A surrogate is neither a quote nor a backslash. -/
theorem surrogate_ne {u : UInt16} (hu : isHighSurrogate u = true ∨ isLowSurrogate u = true) :
    u ≠ unit '"' ∧ u ≠ unit '\\' := by
  constructor
  · rintro rfl
    revert hu
    decide
  · rintro rfl
    revert hu
    decide

/-- A string between quotes reads back as the string. -/
theorem unquote_quoteBody (s text : JsString) :
    unquote (quoteBody s ++ unit '"' :: text) = some (s, text) := by
  induction s using quoteBody.induct with
  | case1 => exact unquote_close text
  | case2 u =>
    rw [quoteBody, unquote_escapeUnit, unquote_close]
    rfl
  | case3 u v s hpair ih =>
    obtain ⟨hu, hv⟩ := Bool.and_eq_true_iff.mp hpair
    rw [quoteBody, if_pos hpair, List.cons_append, List.cons_append]
    rw [unquote_plain (surrogate_ne (.inl hu)).1 (surrogate_ne (.inl hu)).2]
    rw [unquote_plain (surrogate_ne (.inr hv)).1 (surrogate_ne (.inr hv)).2, ih]
    rfl
  | case4 u v s hpair ih =>
    rw [quoteBody, if_neg hpair, List.append_assoc, unquote_escapeUnit, ih]
    rfl

/-- A quoted string in front of a text determines both. -/
theorem quote_append_inj {s s' text text' : JsString}
    (h : quote s ++ text = quote s' ++ text') : s = s' ∧ text = text' := by
  have hbody : quoteBody s ++ unit '"' :: text = quoteBody s' ++ unit '"' :: text' := by
    simpa [quote] using h
  have hread := unquote_quoteBody s text
  rw [hbody, unquote_quoteBody] at hread
  obtain ⟨hs, ht⟩ := Prod.mk.inj (Option.some.inj hread)
  exact ⟨hs.symm, ht.symm⟩

/-- A quoted string determines the string. -/
theorem quote_inj {s s' : JsString} (h : quote s = quote s') : s = s' :=
  (quote_append_inj (congrArg (· ++ []) h)).1

/-! ## The text of a value -/

/-- The text of one member of an object. -/
def memberText (e : JsString × JsString) : JsString := quote e.1 ++ unit ':' :: e.2

namespace JsValue

/-- The JSON text of a value, the members of every object arranged by `arrange`. -/
def encode (arrange : Record JsString → Record JsString) : JsValue → JsString :=
  fold
    { null := js "null"
      bool := fun b => if b then js "true" else js "false"
      num := JsNumber.toText
      str := quote
      arr := fun texts => unit '[' :: (join (unit ',') texts ++ [unit ']'])
      obj := fun members =>
        unit '\x7b' :: (join (unit ',') ((arrange members).map memberText) ++ [unit '\x7d']) }

end JsValue

/-- Whether a code unit can occur in the text of a number. -/
def isNumberUnit (u : UInt16) : Bool :=
  isDigit u || u == unit '.' || u == unit 'e' || u == unit '+' || u == unit '-'

/-- A text that does not go on with a number. -/
def Delimited (s : JsString) : Prop := ∀ u rest, s = u :: rest → isNumberUnit u = false

/-- The empty text does not go on with a number. -/
theorem delimited_nil : Delimited [] := by
  intro u rest h
  simp at h

/-- A text that begins with a delimiter does not go on with a number. -/
theorem delimited_cons {u : UInt16} (hu : isNumberUnit u = false) (s : JsString) :
    Delimited (u :: s) := by
  intro v rest h
  obtain ⟨rfl, -⟩ := List.cons.inj h
  exact hu

/-- Digits can occur in the text of a number. -/
theorem isNumberUnit_of_isDigit {u : UInt16} (h : isDigit u = true) : isNumberUnit u = true := by
  simp [isNumberUnit, h]

/-- Every code unit of a printed decimal can occur in the text of a number. -/
theorem isNumberUnit_of_mem_format {d : Decimal} {u : UInt16} (h : u ∈ d.format) :
    isNumberUnit u = true := by
  have hdigits : ∀ v ∈ natToString d.digits, isNumberUnit v = true :=
    fun v hv => isNumberUnit_of_isDigit (isDigit_of_mem_natToString hv)
  have hexp : ∀ n : ℤ, ∀ v ∈ exponentText n, isNumberUnit v = true := by
    intro n v hv
    rcases List.mem_cons.mp hv with hv | hv
    · rw [hv]
      split_ifs <;> rfl
    · exact isNumberUnit_of_isDigit (isDigit_of_mem_natToString hv)
  have hzeros : ∀ n : ℕ, ∀ v ∈ List.replicate n (unit '0'), isNumberUnit v = true := by
    intro n v hv
    rw [List.eq_of_mem_replicate hv]
    rfl
  have hpoint : isNumberUnit (unit '.') = true := rfl
  have he : isNumberUnit (unit 'e') = true := rfl
  have h0 : isNumberUnit (unit '0') = true := rfl
  have htake : ∀ n, ∀ v ∈ (natToString d.digits).take n, isNumberUnit v = true :=
    fun n v hv => hdigits v (List.mem_of_mem_take hv)
  have hdrop : ∀ n, ∀ v ∈ (natToString d.digits).drop n, isNumberUnit v = true :=
    fun n v hv => hdigits v (List.mem_of_mem_drop hv)
  unfold Decimal.format at h
  simp only at h
  split_ifs at h
  · rcases List.mem_append.mp h with h | h
    · exact hdigits u h
    · exact hzeros _ u h
  · simp only [List.mem_append, List.mem_cons] at h
    rcases h with h | rfl | h
    · exact htake _ u h
    · exact hpoint
    · exact hdrop _ u h
  · simp only [List.mem_append, List.mem_cons] at h
    rcases h with rfl | rfl | h | h
    · exact h0
    · exact hpoint
    · exact hzeros _ u h
    · exact hdigits u h
  · simp only [List.mem_append, List.mem_cons] at h
    rcases h with h | rfl | h
    · exact hdigits u h
    · exact he
    · exact hexp _ u h
  · simp only [List.mem_append, List.mem_cons] at h
    rcases h with h | rfl | h | rfl | h
    · exact htake _ u h
    · exact hpoint
    · exact hdrop _ u h
    · exact he
    · exact hexp _ u h

/-- Every code unit of a number's text can occur in the text of a number. -/
theorem isNumberUnit_of_mem_toText {x : JsNumber} {u : UInt16} (h : u ∈ x.toText) :
    isNumberUnit u = true := by
  unfold JsNumber.toText at h
  split_ifs at h
  · exact List.all_eq_true.mp (by decide : (js "0").all isNumberUnit = true) u h
  · rcases List.mem_cons.mp h with rfl | h
    · rfl
    · exact isNumberUnit_of_mem_format h
  · exact isNumberUnit_of_mem_format h

/-- No decimal prints as the empty text. -/
theorem format_ne_nil (d : Decimal) : d.format ≠ [] := by
  have hne : natToString d.digits ≠ [] := decimalDigits_ne_nil _ _
  unfold Decimal.format
  simp only
  split_ifs <;> simp [hne]

/-- No number prints as the empty text. -/
theorem toText_ne_nil (x : JsNumber) : x.toText ≠ [] := by
  unfold JsNumber.toText
  split_ifs
  · decide
  · simp
  · exact format_ne_nil _

/-- Two runs of number units before delimiters are equal when the texts are. -/
theorem append_delimited_inj {x y s t : JsString} (hx : ∀ u ∈ x, isNumberUnit u = true)
    (hy : ∀ u ∈ y, isNumberUnit u = true) (hs : Delimited s) (ht : Delimited t)
    (h : x ++ s = y ++ t) : x = y ∧ s = t := by
  induction x generalizing y with
  | nil =>
    cases y with
    | nil => exact ⟨rfl, h⟩
    | cons v y =>
      have hv := hs v (y ++ t) h
      rw [hy v List.mem_cons_self] at hv
      simp at hv
  | cons u x ih =>
    cases y with
    | nil =>
      have hu := ht u (x ++ s) h.symm
      rw [hx u List.mem_cons_self] at hu
      simp at hu
    | cons v y =>
      obtain ⟨rfl, hrest⟩ := List.cons.inj h
      obtain ⟨rfl, hst⟩ := ih (fun w hw => hx w (List.mem_cons_of_mem _ hw))
        (fun w hw => hy w (List.mem_cons_of_mem _ hw)) hrest
      exact ⟨rfl, hst⟩

/-- The parts after the first of a join, each behind its separator. -/
theorem join_cons (sep : UInt16) (a : JsString) (parts : List JsString) :
    join sep (a :: parts) = a ++ parts.flatMap (sep :: ·) := by
  induction parts generalizing a with
  | nil => simp
  | cons b parts ih => rw [join_cons_cons, ih, List.flatMap_cons, List.cons_append]

/-- A text that no other text of `texts` continues before a delimiter. -/
def PrefixFree (a : JsString) (texts : List JsString) : Prop :=
  ∀ b ∈ texts, ∀ s t, Delimited s → Delimited t → a ++ s = b ++ t → a = b ∧ s = t

/-- The joined parts after the first, up to the closing unit, determine the parts. -/
theorem joinTail_inj {xs ys : List JsString} {close : UInt16} {s t : JsString}
    (hclose : isNumberUnit close = false) (hsep : unit ',' ≠ close)
    (hfree : ∀ x ∈ xs, PrefixFree x ys)
    (h : xs.flatMap (unit ',' :: ·) ++ close :: s = ys.flatMap (unit ',' :: ·) ++ close :: t) :
    xs = ys ∧ s = t := by
  have hdel : ∀ (zs : List JsString) (r : JsString),
      Delimited (zs.flatMap (unit ',' :: ·) ++ close :: r) := by
    intro zs r
    cases zs with
    | nil => exact delimited_cons hclose r
    | cons z zs => exact delimited_cons rfl _
  induction xs generalizing ys with
  | nil =>
    cases ys with
    | nil => exact ⟨rfl, (List.cons.inj h).2⟩
    | cons y ys => exact absurd (List.cons.inj h).1 hsep.symm
  | cons x xs ih =>
    cases ys with
    | nil => exact absurd (List.cons.inj h).1 hsep
    | cons y ys =>
      simp only [List.flatMap_cons, List.cons_append, List.append_assoc, List.cons.injEq,
        true_and] at h
      obtain ⟨rfl, hrest⟩ := hfree x List.mem_cons_self y List.mem_cons_self _ _
        (hdel xs s) (hdel ys t) h
      obtain ⟨rfl, hst⟩ := ih (fun z hz b hb => hfree z (List.mem_cons_of_mem _ hz) b
        (List.mem_cons_of_mem _ hb)) hrest
      exact ⟨rfl, hst⟩

/-- Joined parts up to the closing unit determine the parts. -/
theorem join_inj {xs ys : List JsString} {close : UInt16} {s t : JsString}
    (hclose : isNumberUnit close = false) (hsep : unit ',' ≠ close)
    (hxs : ∀ x ∈ xs, ∃ c rest, x = c :: rest ∧ c ≠ close)
    (hys : ∀ y ∈ ys, ∃ c rest, y = c :: rest ∧ c ≠ close)
    (hfree : ∀ x ∈ xs, PrefixFree x ys)
    (h : join (unit ',') xs ++ close :: s = join (unit ',') ys ++ close :: t) :
    xs = ys ∧ s = t := by
  cases xs with
  | nil =>
    cases ys with
    | nil => exact ⟨rfl, (List.cons.inj h).2⟩
    | cons y ys =>
      obtain ⟨c, rest, rfl, hc⟩ := hys y List.mem_cons_self
      rw [join_cons] at h
      exact absurd (List.cons.inj h).1.symm hc
  | cons x xs =>
    cases ys with
    | nil =>
      obtain ⟨c, rest, rfl, hc⟩ := hxs x List.mem_cons_self
      rw [join_cons] at h
      exact absurd (List.cons.inj h).1 hc
    | cons y ys =>
      have htail : (x :: xs).flatMap (unit ',' :: ·) ++ close :: s =
          (y :: ys).flatMap (unit ',' :: ·) ++ close :: t := by
        rw [join_cons, join_cons] at h
        simp only [List.flatMap_cons, List.cons_append, h]
      exact joinTail_inj hclose hsep hfree htail

namespace JsValue

variable {arrange : Record JsString → Record JsString} {a b : JsValue}

/-- The kind of value that a first code unit announces. -/
def leadKind (u : UInt16) : ℕ :=
  if u = unit 'n' then 0 else if u = unit 't' then 1 else if u = unit 'f' then 2
  else if u = unit '"' then 3 else if u = unit '[' then 4 else if u = unit '\x7b' then 5 else 6

/-- The kind of a value. -/
def kind : JsValue → ℕ
  | .null => 0
  | .bool b => if b then 1 else 2
  | .str _ => 3
  | .arr _ => 4
  | .obj _ => 5
  | .num _ => 6

/-- The text of an array. -/
theorem encode_arr (items : List JsValue) :
    encode arrange (.arr items) =
      unit '[' :: (join (unit ',') (items.map (encode arrange)) ++ [unit ']']) :=
  fold_arr _ items

/-- The text of an object. -/
theorem encode_obj (members : Record JsValue) :
    encode arrange (.obj members) =
      unit '\x7b' :: (join (unit ',') ((arrange (Record.mapValues (encode arrange) members)).map
        memberText) ++ [unit '\x7d']) :=
  fold_obj _ members

/-- A unit of a number announces a number. -/
theorem leadKind_of_isNumberUnit {u : UInt16} (h : isNumberUnit u = true) : leadKind u = 6 := by
  unfold leadKind
  split_ifs with h0 h1 h2 h3 h4 h5
  all_goals first
    | rfl
    | (subst_vars; exact absurd h (by decide))

/-- The first code unit of a value's text announces its kind. -/
theorem encode_lead (a : JsValue) :
    ∃ c rest, encode arrange a = c :: rest ∧ leadKind c = kind a := by
  cases a with
  | null => exact ⟨_, _, rfl, rfl⟩
  | bool b => cases b <;> exact ⟨_, _, rfl, rfl⟩
  | num n =>
    obtain ⟨c, rest, h⟩ := List.exists_cons_of_ne_nil (toText_ne_nil n)
    refine ⟨c, rest, h, ?_⟩
    exact leadKind_of_isNumberUnit (isNumberUnit_of_mem_toText (h ▸ List.mem_cons_self))
  | str s => exact ⟨_, _, rfl, rfl⟩
  | arr items => exact ⟨_, _, encode_arr items, rfl⟩
  | obj members => exact ⟨_, _, encode_obj members, rfl⟩

/-- Two values whose texts begin two equal texts are of one kind. -/
theorem kind_eq_of_append {s t : JsString} (h : encode arrange a ++ s = encode arrange b ++ t) :
    kind a = kind b := by
  obtain ⟨c, rest, ha, hc⟩ := @encode_lead arrange a
  obtain ⟨d, rest', hb, hd⟩ := @encode_lead arrange b
  rw [ha, hb] at h
  rw [← hc, ← hd, (List.cons.inj h).1]

/-- Two values of one text are of one kind. -/
theorem kind_eq_of_encode_eq (h : encode arrange a = encode arrange b) : kind a = kind b :=
  kind_eq_of_append (congrArg (· ++ []) h)

/-- The texts of values do not begin with a closing unit. -/
theorem encode_ne_close (a : JsValue) :
    ∃ c rest, encode arrange a = c :: rest ∧ c ≠ unit ']' := by
  obtain ⟨c, rest, h, hc⟩ := @encode_lead arrange a
  refine ⟨c, rest, h, ?_⟩
  rintro rfl
  cases a with
  | num n =>
    have hmem := isNumberUnit_of_mem_toText (x := n) (u := unit ']') (by
      have hn : n.toText = unit ']' :: rest := h
      rw [hn]
      exact List.mem_cons_self)
    exact absurd hmem (by decide)
  | bool b => cases b <;> exact absurd hc (by decide)
  | _ => exact absurd hc (by simp only [kind]; decide)

/-- The text of a member determines the member's name and text. -/
theorem memberText_inj {e e' : JsString × JsString} (h : memberText e = memberText e') :
    e = e' := by
  obtain ⟨hk, ht⟩ := quote_append_inj h
  exact Prod.ext hk (List.cons.inj ht).2

/-- An arranged member is a member of the object with the text of its value. -/
theorem mem_arranged (harr : ∀ m, (arrange m).Perm (Record.entries m)) {m : Record JsValue}
    {e : JsString × JsString} (he : e ∈ arrange (Record.mapValues (encode arrange) m)) :
    ∃ v, Record.get m e.1 = some v ∧ e.2 = encode arrange v := by
  have hget := Record.mem_entries.mp ((harr _).mem_iff.mp he)
  rw [Record.get_mapValues] at hget
  obtain ⟨v, hv, heq⟩ := Option.map_eq_some_iff.mp hget
  exact ⟨v, hv, heq.symm⟩

/-- The texts of two objects' members, up to the closing brace, determine them. -/
theorem members_append_inj (harr : ∀ m, (arrange m).Perm (Record.entries m))
    {m m' : Record JsValue} {s t : JsString}
    (hm : ∀ e ∈ m, ∀ b s t, Delimited s → Delimited t →
      encode arrange e.2 ++ s = encode arrange b ++ t → encode arrange e.2 = encode arrange b ∧ s = t)
    (h : join (unit ',') ((arrange (Record.mapValues (encode arrange) m)).map memberText) ++
        unit '\x7d' :: s =
      join (unit ',') ((arrange (Record.mapValues (encode arrange) m')).map memberText) ++
        unit '\x7d' :: t) :
    arrange (Record.mapValues (encode arrange) m) =
      arrange (Record.mapValues (encode arrange) m') ∧ s = t := by
  have hlead : ∀ (n : Record JsString), ∀ x ∈ n.map memberText,
      ∃ c rest, x = c :: rest ∧ c ≠ unit '\x7d' := by
    intro n x hx
    obtain ⟨e, -, rfl⟩ := List.mem_map.mp hx
    exact ⟨_, _, rfl, by decide⟩
  have hfree : ∀ x ∈ (arrange (Record.mapValues (encode arrange) m)).map memberText,
      PrefixFree x ((arrange (Record.mapValues (encode arrange) m')).map memberText) := by
    intro x hx y hy s t hs ht hxy
    obtain ⟨⟨k, text⟩, he, rfl⟩ := List.mem_map.mp hx
    obtain ⟨⟨k', text'⟩, he', rfl⟩ := List.mem_map.mp hy
    obtain ⟨v, hv, rfl⟩ := mem_arranged harr he
    obtain ⟨w, -, rfl⟩ := mem_arranged harr he'
    simp only [memberText, List.append_assoc, List.cons_append] at hxy ⊢
    obtain ⟨rfl, hrest⟩ := quote_append_inj hxy
    obtain ⟨heq, hst⟩ := hm _ (Record.mem_of_get hv) w s t hs ht (List.cons.inj hrest).2
    exact ⟨by rw [heq], hst⟩
  obtain ⟨hlist, hst⟩ := join_inj rfl (by decide) (hlead _) (hlead _) hfree h
  exact ⟨List.map_injective_iff.mpr (fun _ _ => memberText_inj) hlist, hst⟩

/-- The texts of two arrays' items, up to the closing bracket, determine them. -/
theorem items_append_inj {xs ys : List JsValue} {s t : JsString}
    (hxs : ∀ v ∈ xs, ∀ b s t, Delimited s → Delimited t →
      encode arrange v ++ s = encode arrange b ++ t → encode arrange v = encode arrange b ∧ s = t)
    (h : join (unit ',') (xs.map (encode arrange)) ++ unit ']' :: s =
      join (unit ',') (ys.map (encode arrange)) ++ unit ']' :: t) :
    xs.map (encode arrange) = ys.map (encode arrange) ∧ s = t := by
  have hlead : ∀ zs : List JsValue, ∀ x ∈ zs.map (encode arrange),
      ∃ c rest, x = c :: rest ∧ c ≠ unit ']' := by
    intro zs x hx
    obtain ⟨v, -, rfl⟩ := List.mem_map.mp hx
    exact encode_ne_close v
  refine join_inj rfl (by decide) (hlead xs) (hlead ys) ?_ h
  intro x hx y hy s t hs ht hxy
  obtain ⟨v, hv, rfl⟩ := List.mem_map.mp hx
  obtain ⟨w, -, rfl⟩ := List.mem_map.mp hy
  exact hxs v hv w s t hs ht hxy

/-- No text of a value continues another before a delimiter. -/
theorem encode_append_inj (harr : ∀ m, (arrange m).Perm (Record.entries m)) {s t : JsString}
    (hs : Delimited s) (ht : Delimited t) (h : encode arrange a ++ s = encode arrange b ++ t) :
    encode arrange a = encode arrange b ∧ s = t := by
  have hkind := kind_eq_of_append h
  induction a using induct generalizing b s t with
  | null =>
    cases b with
    | null => exact ⟨rfl, List.append_cancel_left h⟩
    | bool b => cases b <;> simp [kind] at hkind
    | _ => simp [kind] at hkind
  | bool x =>
    cases b with
    | bool y =>
      cases x <;> cases y <;> first
        | exact ⟨rfl, List.append_cancel_left h⟩
        | simp [kind] at hkind
    | _ => cases x <;> simp [kind] at hkind
  | num n =>
    cases b with
    | num n' =>
      exact append_delimited_inj (fun _ => isNumberUnit_of_mem_toText)
        (fun _ => isNumberUnit_of_mem_toText) hs ht h
    | bool b => cases b <;> simp [kind] at hkind
    | _ => simp [kind] at hkind
  | str x =>
    cases b with
    | str y =>
      obtain ⟨rfl, hst⟩ := quote_append_inj h
      exact ⟨rfl, hst⟩
    | bool b => cases b <;> simp [kind] at hkind
    | _ => simp [kind] at hkind
  | arr xs ih =>
    cases b with
    | arr ys =>
      rw [encode_arr, encode_arr] at h ⊢
      simp only [List.cons_append, List.append_assoc, List.nil_append, List.cons.injEq,
        true_and] at h
      obtain ⟨hlist, hst⟩ := items_append_inj
        (fun v hv b s t hs ht h => ih v hv hs ht h (kind_eq_of_append h)) h
      exact ⟨by rw [hlist], hst⟩
    | bool b => cases b <;> simp [kind] at hkind
    | _ => simp [kind] at hkind
  | obj m ih =>
    cases b with
    | obj m' =>
      rw [encode_obj, encode_obj] at h ⊢
      simp only [List.cons_append, List.append_assoc, List.nil_append, List.cons.injEq,
        true_and] at h
      obtain ⟨hlist, hst⟩ := members_append_inj harr
        (fun e he b s t hs ht h => ih e he hs ht h (kind_eq_of_append h)) h
      exact ⟨by rw [hlist], hst⟩
    | bool b => cases b <;> simp [kind] at hkind
    | _ => simp [kind] at hkind

/-- The text of a value determines it up to the order of members and the sign of
zero. -/
theorem denote_eq_of_encode_eq (harr : ∀ m, (arrange m).Perm (Record.entries m))
    (h : encode arrange a = encode arrange b) :
    denote JsNumber.dropZeroSign a = denote JsNumber.dropZeroSign b := by
  have hkind := kind_eq_of_encode_eq h
  have hfree : ∀ (v b : JsValue) (s t : JsString), Delimited s → Delimited t →
      encode arrange v ++ s = encode arrange b ++ t →
      encode arrange v = encode arrange b ∧ s = t :=
    fun v b s t hs ht h => encode_append_inj harr hs ht h
  induction a using induct generalizing b with
  | null =>
    cases b with
    | null => rfl
    | bool b => cases b <;> simp [kind] at hkind
    | _ => simp [kind] at hkind
  | bool x =>
    cases b with
    | bool y => cases x <;> cases y <;> first | rfl | simp [kind] at hkind
    | _ => cases x <;> simp [kind] at hkind
  | num n =>
    cases b with
    | num n' => exact congrArg Doc.num (JsNumber.dropZeroSign_eq_of_toText h)
    | bool b => cases b <;> simp [kind] at hkind
    | _ => simp [kind] at hkind
  | str x =>
    cases b with
    | str y => exact congrArg Doc.str (quote_inj h)
    | bool b => cases b <;> simp [kind] at hkind
    | _ => simp [kind] at hkind
  | arr xs ih =>
    cases b with
    | arr ys =>
      rw [encode_arr, encode_arr] at h
      obtain ⟨hlist, -⟩ := items_append_inj (s := []) (t := []) (fun v _ => hfree v)
        (List.cons.inj h).2
      rw [denote_arr, denote_arr, Doc.arr.injEq]
      clear h hkind
      induction xs generalizing ys with
      | nil => simpa using hlist
      | cons v xs ihItems =>
        rcases ys with _ | ⟨w, ys⟩
        · simp at hlist
        · simp only [List.map_cons, List.cons.injEq] at hlist ⊢
          exact ⟨ih v List.mem_cons_self hlist.1 (kind_eq_of_encode_eq hlist.1),
            ihItems (fun x hx => ih x (List.mem_cons_of_mem _ hx)) ys hlist.2⟩
    | bool b => cases b <;> simp [kind] at hkind
    | _ => simp [kind] at hkind
  | obj m ih =>
    cases b with
    | obj m' =>
      rw [encode_obj, encode_obj] at h
      obtain ⟨hlist, -⟩ := members_append_inj harr (s := []) (t := []) (fun e _ => hfree e.2)
        (List.cons.inj h).2
      have hread : ∀ (n : Record JsString) key, Record.get (arrange n) key = Record.get n key := by
        intro n key
        rw [Record.get_perm (Record.keys_nodup n) (harr n).symm, Record.get_entries]
      rw [denote_obj_eq_iff]
      intro key
      have hkey := congrArg (Record.get · key) hlist
      simp only [hread, Record.get_mapValues] at hkey
      cases hv : Record.get m key with
      | none => simp_all [eq_comm]
      | some v =>
        rw [hv] at hkey
        obtain ⟨w, hw, hvw⟩ := Option.map_eq_some_iff.mp hkey.symm
        rw [hw]
        exact congrArg some (ih _ (Record.mem_of_get hv) hvw.symm (kind_eq_of_encode_eq hvw.symm))
    | bool b => cases b <;> simp [kind] at hkind
    | _ => simp [kind] at hkind

end JsValue

end Js
