import Mathlib.Tactic
import Mathlib.Data.List.Sort

/-!
# Strings of the scripting language

A string is a list of UTF-16 code units, lone surrogates included. This file
gives the text operations that the modelled programs call: literals, decimal
printing of naturals, splitting and joining on one separator, replacing every
occurrence of a pattern, and the comparison by code points.
-/

namespace Js

/-- A string: its UTF-16 code units in order. -/
abbrev JsString := List UInt16

/-- Comparing two strings decides whether they are equal. -/
instance : LawfulBEq JsString := List.instLawfulBEq

/-- The UTF-16 encoding of one Unicode scalar value. -/
def utf16 (c : Char) : JsString :=
  let n := c.toNat
  if n < 0x10000 then [n.toUInt16]
  else [(0xD800 + (n - 0x10000) / 0x400).toUInt16, (0xDC00 + (n - 0x10000) % 0x400).toUInt16]

/-- A string literal. -/
def js (s : String) : JsString := s.toList.flatMap utf16

/-- The code unit of an ASCII character. -/
def unit (c : Char) : UInt16 := c.toNat.toUInt16

/-- `s.split(sep)` for a separator of one code unit. -/
def split (sep : UInt16) (s : JsString) : List JsString := s.splitOn sep

/-- `parts.join(sep)` for a separator of one code unit. -/
def join (sep : UInt16) (parts : List JsString) : JsString := [sep].intercalate parts

/-- What is checked of every member of a list holds of them. -/
theorem forall_mem_of_all {T : Type} {p : T → Prop} [DecidablePred p] {items : List T}
    (h : items.all (fun x => decide (p x)) = true) : ∀ x ∈ items, p x :=
  fun x hx => of_decide_eq_true (List.all_eq_true.mp h x hx)

/-- Splitting never yields an empty list of parts. -/
theorem split_ne_nil (sep : UInt16) (s : JsString) : split sep s ≠ [] :=
  List.splitOn_ne_nil sep s

/-- Joining the parts of a split gives the string back. -/
@[simp] theorem join_split (sep : UInt16) (s : JsString) : join sep (split sep s) = s :=
  List.intercalate_splitOn sep

/-- Splitting a join gives the parts back when none of them holds the separator. -/
theorem split_join {sep : UInt16} {parts : List JsString} (hne : parts ≠ [])
    (hfree : ∀ part ∈ parts, sep ∉ part) : split sep (join sep parts) = parts :=
  List.splitOn_intercalate sep hfree hne

/-- Splitting a string without the separator gives it whole. -/
theorem split_of_not_mem {sep : UInt16} {s : JsString} (h : sep ∉ s) : split sep s = [s] :=
  List.splitOn_eq_singleton h

/-- Splitting at a separator splits both sides of it. -/
theorem split_append_cons (sep : UInt16) (s t : JsString) :
    split sep (s ++ sep :: t) = split sep s ++ split sep t :=
  List.splitOn_append_cons_self s t

/-- Joining one more part in front writes it, then the separator. -/
theorem join_cons_cons (sep : UInt16) (a b : JsString) (parts : List JsString) :
    join sep (a :: b :: parts) = a ++ sep :: join sep (b :: parts) := by
  simp [join, List.intercalate, List.intersperse]

/-- Joining one part is that part. -/
@[simp] theorem join_singleton (sep : UInt16) (a : JsString) : join sep [a] = a := by
  simp [join, List.intercalate]

/-- Joining one more part at the end writes the separator, then the part. -/
theorem join_append_singleton (sep : UInt16) {parts : List JsString} (hne : parts ≠ [])
    (a : JsString) : join sep (parts ++ [a]) = join sep parts ++ sep :: a := by
  induction parts with
  | nil => exact absurd rfl hne
  | cons b rest ih =>
    cases rest with
    | nil => simp [join_cons_cons]
    | cons c rest =>
      have hrest := ih (by simp)
      simp only [List.cons_append] at hrest ⊢
      rw [join_cons_cons, join_cons_cons, hrest, List.append_assoc, List.cons_append]

/-- `s.replaceAll(pattern, replacement)`, reading left to right: `skip` code
units of a replaced occurrence are still to be passed over. -/
def replaceAllFrom (pattern replacement : JsString) : ℕ → JsString → JsString
  | _, [] => []
  | skip + 1, _ :: s => replaceAllFrom pattern replacement skip s
  | 0, c :: s =>
    if pattern.isPrefixOf (c :: s) then
      replacement ++ replaceAllFrom pattern replacement (pattern.length - 1) s
    else c :: replaceAllFrom pattern replacement 0 s

/-- `s.replaceAll(pattern, replacement)` for a non-empty pattern. -/
def replaceAll (pattern replacement s : JsString) : JsString :=
  replaceAllFrom pattern replacement 0 s

/-- Replacing one code unit acts on every code unit alone. -/
theorem replaceAll_singleton (c : UInt16) (replacement s : JsString) :
    replaceAll [c] replacement s = s.flatMap fun u => if u = c then replacement else [u] := by
  unfold replaceAll
  induction s with
  | nil => rfl
  | cons u s ih =>
    rw [replaceAllFrom, List.flatMap_cons]
    by_cases hu : u = c
    · simp [hu, ih]
    · simp [hu, Ne.symm hu, ih]

/-- Replacing a two-unit pattern passes over a unit that does not begin it. -/
theorem replaceAll_cons_of_ne {p q u : UInt16} (hu : u ≠ p) (replacement s : JsString) :
    replaceAll [p, q] replacement (u :: s) = u :: replaceAll [p, q] replacement s := by
  simp [replaceAll, replaceAllFrom, Ne.symm hu]

/-- Replacing a two-unit pattern passes over a first unit that the second does
not follow. -/
theorem replaceAll_cons_cons_of_ne {p q v : UInt16} (hv : v ≠ q) (replacement s : JsString) :
    replaceAll [p, q] replacement (p :: v :: s) = p :: replaceAll [p, q] replacement (v :: s) := by
  simp [replaceAll, replaceAllFrom, Ne.symm hv]

/-- Replacing a two-unit pattern where it stands. -/
theorem replaceAll_cons_cons (p q : UInt16) (replacement s : JsString) :
    replaceAll [p, q] replacement (p :: q :: s) =
      replacement ++ replaceAll [p, q] replacement s := by
  simp [replaceAll, replaceAllFrom]

/-- The decimal digits of a natural number, with `fuel` digits still allowed. -/
def decimalDigits : ℕ → ℕ → JsString
  | 0, n => [48 + (n % 10).toUInt16]
  | fuel + 1, n =>
    if n < 10 then [48 + n.toUInt16]
    else decimalDigits fuel (n / 10) ++ [48 + (n % 10).toUInt16]

/-- `String(n)` for a natural number. -/
def natToString (n : ℕ) : JsString := decimalDigits n n

/-- Whether a code unit is an ASCII digit. -/
def isDigit (u : UInt16) : Bool := 48 ≤ u && u ≤ 57

/-- The number a digit string denotes in base ten. -/
def digitsValue (s : JsString) : ℕ := s.foldl (fun n u => 10 * n + (u.toNat - 48)) 0

/-- One more digit is one base-ten accumulation step. -/
theorem digitsValue_append_singleton (s : JsString) (u : UInt16) :
    digitsValue (s ++ [u]) = 10 * digitsValue s + (u.toNat - 48) := by
  simp [digitsValue, List.foldl_append]

/-- The digit written for a number below ten reads back as that number. -/
theorem digit_toNat {d : ℕ} (hd : d < 10) : (48 + d.toUInt16).toNat = 48 + d := by
  interval_cases d <;> rfl

/-- The decimal digits of a number denote it. -/
theorem digitsValue_decimalDigits {fuel n : ℕ} (h : n ≤ fuel) :
    digitsValue (decimalDigits fuel n) = n := by
  induction fuel generalizing n with
  | zero =>
    obtain rfl : n = 0 := by omega
    rfl
  | succ fuel ih =>
    unfold decimalDigits
    split_ifs with hlt
    · simp [digitsValue, digit_toNat hlt]
    · rw [digitsValue_append_singleton, ih (by omega), digit_toNat (Nat.mod_lt _ (by omega))]
      omega

/-- `String(n)` denotes `n`. -/
@[simp] theorem digitsValue_natToString (n : ℕ) : digitsValue (natToString n) = n :=
  digitsValue_decimalDigits le_rfl

/-- Decimal digits are digits. -/
theorem isDigit_of_mem_decimalDigits {fuel n : ℕ} {u : UInt16}
    (h : u ∈ decimalDigits fuel n) : isDigit u = true := by
  have hdigit : ∀ d < 10, isDigit (48 + d.toUInt16) = true := by decide
  induction fuel generalizing n with
  | zero =>
    obtain rfl := List.mem_singleton.mp h
    exact hdigit _ (Nat.mod_lt _ (by omega))
  | succ fuel ih =>
    unfold decimalDigits at h
    split_ifs at h with hlt
    · obtain rfl := List.mem_singleton.mp h
      exact hdigit _ hlt
    · rcases List.mem_append.mp h with h | h
      · exact ih h
      · obtain rfl := List.mem_singleton.mp h
        exact hdigit _ (Nat.mod_lt _ (by omega))

/-- A number has at least one decimal digit. -/
theorem decimalDigits_ne_nil (fuel n : ℕ) : decimalDigits fuel n ≠ [] := by
  cases fuel with
  | zero => simp [decimalDigits]
  | succ fuel =>
    unfold decimalDigits
    split_ifs <;> simp

/-- Whether a code unit is a high surrogate. -/
def isHighSurrogate (u : UInt16) : Bool := 0xD800 ≤ u && u ≤ 0xDBFF

/-- Whether a code unit is a low surrogate. -/
def isLowSurrogate (u : UInt16) : Bool := 0xDC00 ≤ u && u ≤ 0xDFFF

/-- The code points of a string, as its iterator yields them: a surrogate pair
is one code point and a lone surrogate is its own. -/
def codePoints : JsString → List ℕ
  | [] => []
  | [u] => [u.toNat]
  | u :: v :: s =>
    if isHighSurrogate u && isLowSurrogate v then
      (0x10000 + (u.toNat - 0xD800) * 0x400 + (v.toNat - 0xDC00)) :: codePoints s
    else u.toNat :: codePoints (v :: s)

/-- The three-way comparison of two code-point sequences. -/
def comparePoints : List ℕ → List ℕ → Int
  | [], [] => 0
  | [], _ :: _ => -1
  | _ :: _, [] => 1
  | a :: as, b :: bs => if a = b then comparePoints as bs else if a < b then -1 else 1

/-- Compare two strings by Unicode code point. -/
def compareCodepoints (a b : JsString) : Int := comparePoints (codePoints a) (codePoints b)

end Js
