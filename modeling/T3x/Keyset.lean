import Mathlib.Data.List.Sort
import Mathlib.Tactic.Common

/-!
# Walks over a sorted list

A list that is sorted strictly can be walked in pages: what comes after a place is
found again by the order alone, so the walk only needs to remember where it was.
The pages are the pieces of the list.
-/

namespace T3x.Keyset

variable {α : Type}

/-! ## Pages -/

/-- The pieces of a list, of at most the length; there is at least one. -/
def pages (limit : ℕ) : ℕ → List α → List (List α)
  | 0, _ => []
  | fuel + 1, rows =>
    if rows.length ≤ limit then [rows] else rows.take limit :: pages limit fuel (rows.drop limit)

/-- The number of pieces of a list, of at most the length; there is at least one. -/
def pageCount (limit n : ℕ) : ℕ := max 1 ((n + limit - 1) / limit)

/-- A list that fits is one piece. -/
theorem pageCount_of_le {limit n : ℕ} (hlimit : 1 ≤ limit) (h : n ≤ limit) :
    pageCount limit n = 1 := by
  have hle : (n + limit - 1) / limit ≤ 1 := by
    rw [← Nat.lt_succ_iff, Nat.div_lt_iff_lt_mul (by omega)]
    omega
  unfold pageCount
  omega

/-- A longer list has one piece more than what is behind the first. -/
theorem pageCount_of_lt {limit n : ℕ} (hlimit : 1 ≤ limit) (h : limit < n) :
    pageCount limit n = pageCount limit (n - limit) + 1 := by
  have hstep : (n + limit - 1) / limit = (n - limit + limit - 1) / limit + 1 := by
    rw [← Nat.add_div_right _ (by omega)]
    congr 1
    omega
  have hpos : 1 ≤ (n - limit + limit - 1) / limit := by
    rw [Nat.le_div_iff_mul_le (by omega)]
    omega
  unfold pageCount
  rw [hstep]
  omega

/-- The pieces of a list make up the list. -/
theorem pages_spec {limit : ℕ} (hlimit : 1 ≤ limit) {fuel : ℕ} {rows : List α}
    (hfuel : pageCount limit rows.length ≤ fuel) :
    (pages limit fuel rows).flatten = rows ∧
      (pages limit fuel rows).length = pageCount limit rows.length := by
  induction fuel generalizing rows with
  | zero =>
    unfold pageCount at hfuel
    omega
  | succ fuel ih =>
    rw [pages]
    split_ifs with hfits
    · exact ⟨by simp, by rw [pageCount_of_le hlimit hfits]; rfl⟩
    · rw [pageCount_of_lt hlimit (by omega)] at hfuel ⊢
      rw [← List.length_drop] at hfuel ⊢
      have hrest : pageCount limit (rows.drop limit).length ≤ fuel := by omega
      obtain ⟨hflatten, hlength⟩ := ih hrest
      refine ⟨?_, ?_⟩
      · rw [List.flatten_cons, hflatten, List.take_append_drop]
      · rw [List.length_cons, hlength]

/-! ## Places -/

/-- What comes after an element of a strictly sorted list is what stands behind it. -/
theorem filter_after (after : α → α → Bool) (hirrefl : ∀ a, after a a = false)
    (hasymm : ∀ a b, after a b = true → after b a = false) {front rest : List α} {x : α}
    (hsorted : (front ++ x :: rest).Pairwise fun a b => after a b = true) :
    (front ++ x :: rest).filter (after x) = rest := by
  rw [List.pairwise_append, List.pairwise_cons] at hsorted
  obtain ⟨-, ⟨hrest, -⟩, hfront⟩ := hsorted
  rw [List.filter_append, List.filter_eq_nil_iff.mpr, List.nil_append,
    List.filter_cons_of_neg (by simp [hirrefl]), List.filter_eq_self.mpr hrest]
  intro a ha
  rw [hasymm a x (hfront a ha x List.mem_cons_self)]
  exact Bool.false_ne_true

variable {le : α → α → Prop} [DecidableRel le]

/-- Sorting what a condition selects is selecting from what is sorted, where the order tells the
elements apart. -/
theorem insertionSort_filter [Std.Total le] [IsTrans α le] {rows : List α} (keep : α → Bool)
    (hantisymm : ∀ a ∈ rows, ∀ b ∈ rows, le a b → le b a → a = b) :
    (rows.filter keep).insertionSort le = (rows.insertionSort le).filter keep := by
  refine List.Perm.eq_of_pairwise (fun a b ha hb => ?_) (List.pairwise_insertionSort le _)
    ((List.pairwise_insertionSort le rows).filter _) ?_
  · rw [List.mem_insertionSort, List.mem_filter] at ha
    rw [List.mem_filter, List.mem_insertionSort] at hb
    exact hantisymm a ha.1 b hb.1
  · exact (List.perm_insertionSort le _).trans ((List.perm_insertionSort le rows).symm.filter keep)

end T3x.Keyset
