import T3x.Js.Str
import Mathlib.Data.List.Infix

/-!
# Searching and slicing strings

Positions count code units. A search gives the first position at or after a
start at which a pattern stands; a slice between two positions is a part of the
string, and it holds something as soon as it begins inside the string.
-/

namespace Js

/-- `s.includes(pattern)`. -/
def includes (s pattern : JsString) : Bool := decide (pattern <:+: s)

/-- `s.startsWith(start)`. -/
def startsWith (s start : JsString) : Bool := start.isPrefixOf s

/-- `s.endsWith(ending)`. -/
def endsWith (s ending : JsString) : Bool := ending.isSuffixOf s

/-- A string starts with its prefixes. -/
@[simp] theorem startsWith_iff {s start : JsString} : startsWith s start = true ↔ start <+: s :=
  List.isPrefixOf_iff_prefix

/-- Texts up to a separator that neither holds begin alike if they are equal and what follows
begins alike. -/
theorem append_cons_isPrefix_iff {sep : UInt16} {x y s t : JsString} (hx : sep ∉ x) (hy : sep ∉ y) :
    y ++ sep :: s <+: x ++ sep :: t ↔ y = x ∧ s <+: t := by
  induction y generalizing x with
  | nil =>
    cases x with
    | nil => simp
    | cons u x =>
      simp only [List.nil_append, List.cons_append, List.cons_prefix_cons]
      exact ⟨fun h => absurd (h.1 ▸ List.mem_cons_self) hx, fun h => by cases h.1⟩
  | cons v y ih =>
    rw [List.mem_cons, not_or] at hy
    cases x with
    | nil =>
      simp only [List.nil_append, List.cons_append, List.cons_prefix_cons]
      exact ⟨fun h => absurd h.1.symm hy.1, fun h => by cases h.1⟩
    | cons u x =>
      rw [List.mem_cons, not_or] at hx
      rw [List.cons_append, List.cons_append, List.cons_prefix_cons, ih hx.2 hy.2, List.cons.injEq,
        and_assoc]

/-- `s.indexOf(pattern, start)` for a start within the string: nothing where the source
gives `-1`. -/
def indexOf (s pattern : JsString) (start : ℕ) : Option ℕ :=
  (List.range (s.length + 1)).find? fun i =>
    decide (start ≤ i) && pattern.isPrefixOf (s.drop i)

/-- `s.slice(start, stop)`. -/
def slice (s : JsString) (start stop : ℕ) : JsString := (s.take stop).drop start

/-- A pattern that is found stands at the position, which is no earlier than the start. -/
theorem isPrefix_of_indexOf {s pattern : JsString} {start i : ℕ}
    (h : indexOf s pattern start = some i) : start ≤ i ∧ pattern <+: s.drop i := by
  have hfound := List.find?_some h
  rw [Bool.and_eq_true, decide_eq_true_iff, List.isPrefixOf_iff_prefix] at hfound
  exact hfound

/-- A pattern that is a part of a string is found in it. -/
theorem exists_indexOf {s pattern : JsString} (h : pattern <:+: s) :
    ∃ i, indexOf s pattern 0 = some i := by
  obtain ⟨before, after, hs⟩ := h
  refine Option.isSome_iff_exists.mp (List.find?_isSome.mpr ⟨before.length, ?_, ?_⟩)
  · rw [List.mem_range, ← hs, List.length_append, List.length_append]
    omega
  · rw [Bool.and_eq_true, decide_eq_true_iff, List.isPrefixOf_iff_prefix, ← hs,
      List.append_assoc, List.drop_left]
    exact ⟨Nat.zero_le _, List.prefix_append _ _⟩

/-- A pattern that is found with text after its start ends within the string. -/
theorem indexOf_add_length_le {s pattern : JsString} {start i : ℕ}
    (h : indexOf s pattern start = some i) (hne : pattern ≠ []) :
    i + pattern.length ≤ s.length := by
  have hlength := (isPrefix_of_indexOf h).2.length_le
  have hpos := List.length_pos_iff.mpr hne
  rw [List.length_drop] at hlength
  omega

/-- A slice is a part of the string. -/
theorem slice_isInfix (s : JsString) (start stop : ℕ) : slice s start stop <:+: s :=
  (List.drop_suffix _ _).isInfix.trans (List.take_prefix _ _).isInfix

/-- A slice that begins inside the string and ends later holds something. -/
theorem slice_ne_nil {s : JsString} {start stop : ℕ} (hlt : start < stop)
    (hin : start < s.length) : slice s start stop ≠ [] := by
  apply List.ne_nil_of_length_pos
  rw [slice, List.length_drop, List.length_take]
  omega

end Js
