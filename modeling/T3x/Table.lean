import Mathlib.Data.List.Nodup
import Mathlib.Data.List.Count
import Mathlib.Tactic.Common

/-!
# Tables with unique keys

A table is a list of rows. An update rewrites the rows that a condition selects; an
insertion that meets a row of its key rewrites this row instead of adding one. Where
the rewriting leaves a key as it is, the key stays unique.
-/

namespace T3x.Table

variable {α κ : Type}

/-- No two rows have the same key. -/
def Unique (key : α → κ) (rows : List α) : Prop := (rows.map key).Nodup

instance [DecidableEq κ] (key : α → κ) (rows : List α) : Decidable (Unique key rows) :=
  inferInstanceAs (Decidable (rows.map key).Nodup)

/-- The rows, those that meet the condition rewritten. -/
def update (cond : α → Bool) (write : α → α) (rows : List α) : List α :=
  rows.map fun row => if cond row then write row else row

/-- Whether a row has the key. -/
def hasKey [DecidableEq κ] (key : α → κ) (k : κ) (rows : List α) : Bool :=
  rows.any fun row => decide (key row = k)

variable {key : α → κ} {cond : α → Bool} {write : α → α} {rows : List α} {row other : α}

/-! ## Updates -/

/-- The rows after an update are the rows before it, those selected rewritten. -/
theorem mem_update : row ∈ update cond write rows ↔
    ∃ old ∈ rows, (if cond old then write old else old) = row := by
  rw [update, List.mem_map]

/-- A row that is not selected stays. -/
theorem mem_update_of_not (h : row ∈ rows) (hcond : cond row = false) :
    row ∈ update cond write rows :=
  mem_update.mpr ⟨row, h, by rw [hcond]; rfl⟩

/-- A row that is selected is rewritten. -/
theorem mem_update_of_cond (h : row ∈ rows) (hcond : cond row = true) :
    write row ∈ update cond write rows :=
  mem_update.mpr ⟨row, h, by rw [hcond]; rfl⟩

/-- An update that keeps the keys of the rows that it selects leaves the keys as they are. -/
theorem map_update (hkey : ∀ row, cond row = true → key (write row) = key row) :
    (update cond write rows).map key = rows.map key := by
  rw [update, List.map_map]
  refine List.map_congr_left fun row _ => ?_
  by_cases hcond : cond row = true
  · simp only [Function.comp_apply, hcond, if_true, hkey row hcond]
  · simp only [Function.comp_apply, hcond, Bool.false_eq_true, if_false]

/-- An update that keeps the keys keeps them unique. -/
theorem Unique.update (h : Unique key rows)
    (hkey : ∀ row, cond row = true → key (write row) = key row) :
    Unique key (Table.update cond write rows) := by
  rw [Unique, map_update hkey]
  exact h

/-! ## Keys -/

/-- A key is taken when some row has it. -/
theorem hasKey_eq_true_iff [DecidableEq κ] {k : κ} :
    hasKey key k rows = true ↔ ∃ row ∈ rows, key row = k := by
  simp [hasKey]

/-- A key is free when no row has it. -/
theorem hasKey_eq_false_iff [DecidableEq κ] {k : κ} :
    hasKey key k rows = false ↔ ∀ row ∈ rows, key row ≠ k := by
  simp [hasKey]

/-- Rows with one key are one row. -/
theorem Unique.eq (h : Unique key rows) (hrow : row ∈ rows) (hother : other ∈ rows)
    (hkey : key row = key other) : row = other :=
  List.inj_on_of_nodup_map h hrow hother hkey

/-- A row is found by its key. -/
theorem Unique.find?_eq [DecidableEq κ] (h : Unique key rows) (hrow : row ∈ rows) :
    (rows.find? fun other => key other = key row) = some row := by
  have hsome : (rows.find? fun other => key other = key row).isSome := by
    rw [List.find?_isSome]
    exact ⟨row, hrow, by simp⟩
  obtain ⟨other, hother⟩ := Option.isSome_iff_exists.mp hsome
  have hkey : key other = key row := by simpa using List.find?_some hother
  rw [hother, h.eq (List.mem_of_find?_eq_some hother) hrow hkey]

/-- A row with a free key may be added. -/
theorem Unique.append (h : Unique key rows) (hfree : ∀ old ∈ rows, key old ≠ key row) :
    Unique key (rows ++ [row]) := by
  rw [Unique, List.map_append, List.map_singleton, List.nodup_append]
  refine ⟨h, List.nodup_singleton _, ?_⟩
  intro k hk k' hk'
  obtain ⟨old, hold, rfl⟩ := List.mem_map.mp hk
  rw [List.mem_singleton.mp hk']
  exact hfree old hold

/-- Where more than one row is selected, one of them has another key. -/
theorem Unique.exists_other (h : Unique key rows) (hcount : 1 < rows.countP cond) (k : κ) :
    ∃ row ∈ rows, cond row = true ∧ key row ≠ k := by
  by_contra hnone
  push Not at hnone
  have hall : ∀ k' ∈ (rows.filter cond).map key, k' = k := by
    intro k' hk'
    obtain ⟨row, hrow, rfl⟩ := List.mem_map.mp hk'
    exact hnone row (List.mem_filter.mp hrow).1 (List.mem_filter.mp hrow).2
  have hnodup : ((rows.filter cond).map key).Nodup := h.sublist (List.filter_sublist.map key)
  have hlength : ((rows.filter cond).map key).length = rows.countP cond := by
    rw [List.length_map, List.countP_eq_length_filter]
  match hkeys : (rows.filter cond).map key with
  | [] => rw [hkeys] at hlength; simp only [List.length_nil] at hlength; omega
  | [_] => rw [hkeys] at hlength; simp only [List.length_singleton] at hlength; omega
  | k₁ :: k₂ :: rest =>
    rw [hkeys] at hall hnodup
    have hsame : k₁ = k₂ := (hall k₁ (by simp)).trans (hall k₂ (by simp)).symm
    simp [hsame] at hnodup

end T3x.Table
