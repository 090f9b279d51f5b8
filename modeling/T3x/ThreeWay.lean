import Mathlib.Tactic

/-!
# Three-way decisions

Two sides changed a common base, each in its own way or not at all. A decision
is settled when at most one side changed, or both made the same change. Values
are compared through a reading, so that two values count as one when they read
alike.
-/

namespace ThreeWay

variable {V R : Type} {same : V → V → Bool} {read : V → R} {before ours theirs value : V}

/-- The value that a three-way decision settles on: the side that changed. -/
def settle (same : V → V → Bool) (before ours theirs : V) : Option V :=
  if same ours before then some theirs
  else if same theirs before || same ours theirs then some ours
  else none

/-- The three values are pairwise different. -/
structure Differ (read : V → R) (before ours theirs : V) : Prop where
  /-- Our side changed. -/
  ours_ne : read ours ≠ read before
  /-- Their side changed. -/
  theirs_ne : read theirs ≠ read before
  /-- The changes are not the same. -/
  ne : read ours ≠ read theirs

/-- Exchanging the sides keeps three values pairwise different. -/
theorem Differ.swap (h : Differ read before ours theirs) : Differ read before theirs ours :=
  ⟨h.theirs_ne, h.ours_ne, h.ne.symm⟩

/-- A decision stays open exactly when the three values are pairwise different. -/
theorem settle_eq_none_iff (hsame : ∀ a b, same a b = true ↔ read a = read b) :
    settle same before ours theirs = none ↔ Differ read before ours theirs := by
  unfold settle
  split_ifs with h1 h2
  · simp only [false_iff]
    exact fun h => h.ours_ne ((hsame _ _).mp h1)
  · simp only [false_iff]
    intro h
    rcases Bool.or_eq_true_iff.mp h2 with h2 | h2
    · exact h.theirs_ne ((hsame _ _).mp h2)
    · exact h.ne ((hsame _ _).mp h2)
  · simp only [true_iff]
    simp only [Bool.or_eq_true, not_or] at h2
    exact ⟨fun h => h1 ((hsame _ _).mpr h), fun h => h2.1 ((hsame _ _).mpr h),
      fun h => h2.2 ((hsame _ _).mpr h)⟩

/-- A settled decision: one side reads as the base and the other side's value
stands, or both sides read alike. -/
theorem settle_cases (hsame : ∀ a b, same a b = true ↔ read a = read b)
    (h : settle same before ours theirs = some value) :
    (read ours = read before ∧ value = theirs) ∨
      (read theirs = read before ∧ value = ours) ∨
      (read ours = read theirs ∧ value = ours) := by
  unfold settle at h
  split_ifs at h with h1 h2
  · exact .inl ⟨(hsame _ _).mp h1, (Option.some.inj h).symm⟩
  · rcases Bool.or_eq_true_iff.mp h2 with h2 | h2
    · exact .inr (.inl ⟨(hsame _ _).mp h2, (Option.some.inj h).symm⟩)
    · exact .inr (.inr ⟨(hsame _ _).mp h2, (Option.some.inj h).symm⟩)

/-- A settled value reads as our side where their side reads as the base. -/
theorem read_settle_of_theirs (hsame : ∀ a b, same a b = true ↔ read a = read b)
    (h : settle same before ours theirs = some value) (htheirs : read theirs = read before) :
    read value = read ours := by
  rcases settle_cases hsame h with ⟨ho, rfl⟩ | ⟨-, rfl⟩ | ⟨-, rfl⟩
  · rw [htheirs, ho]
  · rfl
  · rfl

/-- A settled value reads as their side where our side reads as the base. -/
theorem read_settle_of_ours (hsame : ∀ a b, same a b = true ↔ read a = read b)
    (h : settle same before ours theirs = some value) (hours : read ours = read before) :
    read value = read theirs := by
  rcases settle_cases hsame h with ⟨-, rfl⟩ | ⟨ht, rfl⟩ | ⟨heq, rfl⟩
  · rfl
  · rw [hours, ht]
  · exact heq

/-- A decision on an unchanged side takes the other side's value. -/
theorem settle_of_ours (hsame : ∀ a b, same a b = true ↔ read a = read b)
    (hours : read ours = read before) : settle same before ours theirs = some theirs := by
  unfold settle
  rw [if_pos ((hsame _ _).mpr hours)]

/-- Exchanging the sides settles on a value that reads alike. -/
theorem settle_swap (hsame : ∀ a b, same a b = true ↔ read a = read b)
    (h : settle same before ours theirs = some value) :
    ∃ value', settle same before theirs ours = some value' ∧ read value' = read value := by
  cases h' : settle same before theirs ours with
  | none =>
    have hdiffer := ((settle_eq_none_iff hsame).mp h').swap
    rw [(settle_eq_none_iff hsame).mpr hdiffer] at h
    simp at h
  | some value' =>
    refine ⟨value', rfl, ?_⟩
    rcases settle_cases hsame h with ⟨ho, rfl⟩ | ⟨ht, rfl⟩ | ⟨heq, rfl⟩
    · exact read_settle_of_theirs hsame h' ho
    · exact read_settle_of_ours hsame h' ht
    · rcases settle_cases hsame h' with ⟨-, rfl⟩ | ⟨-, rfl⟩ | ⟨-, rfl⟩
      · rfl
      · exact heq.symm
      · exact heq.symm

/-! ## Values that follow the side that changed -/

/-- A value follows the side that changed, and both sides where they agree. -/
structure Follows (read : V → R) (before ours theirs value : V) : Prop where
  /-- Where their side is unchanged the value is ours. -/
  of_theirs : read theirs = read before → read value = read ours
  /-- Where our side is unchanged the value is theirs. -/
  of_ours : read ours = read before → read value = read theirs
  /-- Where the sides agree the value is theirs and ours. -/
  of_same : read ours = read theirs → read value = read ours

/-- Exchanging the sides keeps what follows them. -/
theorem Follows.swap (h : Follows read before ours theirs value) :
    Follows read before theirs ours value :=
  ⟨h.of_ours, h.of_theirs, fun heq => (h.of_same heq.symm).trans heq.symm⟩

/-- Two values that follow the sides of a settled decision read alike. -/
theorem Follows.unique {value' : V} (h : Follows read before ours theirs value)
    (h' : Follows read before ours theirs value') (hsettled : ¬ Differ read before ours theirs) :
    read value = read value' := by
  by_cases ho : read ours = read before
  · rw [h.of_ours ho, h'.of_ours ho]
  by_cases ht : read theirs = read before
  · rw [h.of_theirs ht, h'.of_theirs ht]
  by_cases heq : read ours = read theirs
  · rw [h.of_same heq, h'.of_same heq]
  · exact absurd ⟨ho, ht, heq⟩ hsettled

end ThreeWay
