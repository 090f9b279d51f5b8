import T3x.Js.Agree

/-!
# Tests that may fail

Conjunction, search and filtering with tests that may fail, and lists that
differ by members without influence: a list that has the members of another and
only such members besides them passes the same tests.
-/

namespace Js

variable {E T U : Type}

/-- `x && y`, where evaluating may fail and `y` is evaluated only when `x` holds. -/
def andThen (x y : Except E Bool) : Except E Bool := do
  let b ← x
  if b then y else return false

/-- `values.filter(test)`, where a test may fail. -/
def keep (test : T → Except E Bool) : List T → Except E (List T)
  | [] => return []
  | value :: values => do
    let b ← test value
    let rest ← keep test values
    return if b then value :: rest else rest

/-- A conjunction is decided by its first part if that fails, else by the second. -/
theorem andThen_eq_ok_iff {x y : Except E Bool} {b : Bool} :
    andThen x y = .ok b ↔ (x = .ok false ∧ b = false) ∨ (x = .ok true ∧ y = .ok b) := by
  unfold andThen
  rw [bind_eq_ok_iff]
  constructor
  · rintro ⟨c, hc, h⟩
    cases c with
    | false => exact .inl ⟨hc, (Except.ok.inj h).symm⟩
    | true => exact .inr ⟨hc, h⟩
  · rintro (⟨hx, rfl⟩ | ⟨hx, hy⟩)
    · exact ⟨false, hx, rfl⟩
    · exact ⟨true, hx, hy⟩

/-- A conjunction holds exactly when both parts do. -/
theorem andThen_eq_true_iff {x y : Except E Bool} :
    andThen x y = .ok true ↔ x = .ok true ∧ y = .ok true := by
  rw [andThen_eq_ok_iff]
  simp

/-- A conjunction whose parts are evaluated without failure is. -/
theorem exists_andThen {x y : Except E Bool} (hx : ∃ b, x = .ok b) (hy : ∃ b, y = .ok b) :
    ∃ b, andThen x y = .ok b := by
  obtain ⟨b, hb⟩ := hx
  cases b with
  | false => exact ⟨false, andThen_eq_ok_iff.mpr (.inl ⟨hb, rfl⟩)⟩
  | true =>
    obtain ⟨c, hc⟩ := hy
    exact ⟨c, andThen_eq_ok_iff.mpr (.inr ⟨hb, hc⟩)⟩

/-- A search that is evaluated finds something exactly when some test holds. -/
theorem anyM_eq_true_iff {test : T → Except E Bool} {values : List T} {b : Bool}
    (h : values.anyM test = .ok b) : b = true ↔ ∃ value ∈ values, test value = .ok true := by
  induction values with
  | nil =>
    obtain rfl := Except.ok.inj h
    simp
  | cons value values ih =>
    rw [List.anyM] at h
    obtain ⟨c, hc, hrest⟩ := bind_eq_ok_iff.mp h
    cases c with
    | true =>
      obtain rfl := Except.ok.inj hrest
      exact iff_of_true rfl ⟨value, List.mem_cons_self, hc⟩
    | false =>
      rw [ih hrest]
      simp [hc]

/-- A search is evaluated without failure when every test is. -/
theorem exists_anyM {test : T → Except E Bool} {values : List T}
    (h : ∀ value ∈ values, ∃ b, test value = .ok b) : ∃ b, values.anyM test = .ok b := by
  induction values with
  | nil => exact ⟨false, rfl⟩
  | cons value values ih =>
    obtain ⟨b, hb⟩ := h value List.mem_cons_self
    obtain ⟨c, hc⟩ := ih fun w hw => h w (List.mem_cons_of_mem _ hw)
    cases b with
    | true => exact ⟨true, by rw [List.anyM, hb]; rfl⟩
    | false => exact ⟨c, by rw [List.anyM, hb]; exact hc⟩

/-- What is kept are the members that pass the test. -/
theorem mem_keep {test : T → Except E Bool} {values kept : List T} (h : keep test values = .ok kept)
    (value : T) : value ∈ kept ↔ value ∈ values ∧ test value = .ok true := by
  induction values generalizing kept with
  | nil =>
    obtain rfl := Except.ok.inj h
    simp
  | cons head values ih =>
    obtain ⟨b, hb, hmore⟩ := bind_eq_ok_iff.mp h
    obtain ⟨rest, hrest, hlast⟩ := bind_eq_ok_iff.mp hmore
    obtain rfl := Except.ok.inj hlast
    cases b with
    | true =>
      rw [if_pos rfl, List.mem_cons, List.mem_cons, ih hrest]
      constructor
      · rintro (rfl | ⟨hmem, htest⟩)
        · exact ⟨.inl rfl, hb⟩
        · exact ⟨.inr hmem, htest⟩
      · rintro ⟨rfl | hmem, htest⟩
        · exact .inl rfl
        · exact .inr ⟨hmem, htest⟩
    | false =>
      rw [if_neg Bool.false_ne_true, List.mem_cons, ih hrest]
      constructor
      · exact fun h => ⟨.inr h.1, h.2⟩
      · rintro ⟨rfl | hmem, htest⟩
        · rw [hb] at htest
          cases htest
        · exact ⟨hmem, htest⟩

/-- A test that always fails to hold keeps nothing. -/
theorem keep_false {values : List T} : keep (fun _ => (.ok false : Except E Bool)) values = .ok [] := by
  induction values with
  | nil => rfl
  | cons value values ih => exact bind_eq_ok_iff.mpr ⟨false, rfl, bind_eq_ok_iff.mpr ⟨[], ih, rfl⟩⟩

/-- Filtering succeeds exactly when every test does. -/
theorem exists_keep_iff {test : T → Except E Bool} {values : List T} :
    (∃ kept, keep test values = .ok kept) ↔ ∀ value ∈ values, ∃ b, test value = .ok b := by
  induction values with
  | nil => exact ⟨fun _ _ h => absurd h List.not_mem_nil, fun _ => ⟨[], rfl⟩⟩
  | cons head values ih =>
    rw [List.forall_mem_cons, ← ih]
    constructor
    · rintro ⟨kept, h⟩
      obtain ⟨b, hb, hrest⟩ := bind_eq_ok_iff.mp h
      obtain ⟨rest, hrest, -⟩ := bind_eq_ok_iff.mp hrest
      exact ⟨⟨b, hb⟩, rest, hrest⟩
    · rintro ⟨⟨b, hb⟩, rest, hrest⟩
      exact ⟨_, bind_eq_ok_iff.mpr ⟨b, hb, bind_eq_ok_iff.mpr ⟨rest, hrest, rfl⟩⟩⟩

/-! ## Lists that differ by members without influence -/

/-- The second list has the members of the first, and besides them only such ones. -/
structure Adds (P : T → Prop) (values values' : List T) : Prop where
  /-- No member is lost. -/
  kept : ∀ value ∈ values, value ∈ values'
  /-- A further member is such a one. -/
  added : ∀ value ∈ values', value ∈ values ∨ P value

/-- The lists have the same members. -/
abbrev SameMembers (values values' : List T) : Prop := Adds (fun _ => False) values values'

/-- Lists with the same members. -/
theorem sameMembers_iff {values values' : List T} :
    SameMembers values values' ↔ ∀ value, value ∈ values ↔ value ∈ values' :=
  ⟨fun h value => ⟨h.kept value, fun hv => (h.added value hv).resolve_right id⟩,
    fun h => ⟨fun value => (h value).mp, fun value hv => .inl ((h value).mpr hv)⟩⟩

/-- A test that no further member passes does not tell the lists apart. -/
theorem Adds.any_eq {P : T → Prop} {values values' : List T} (h : Adds P values values')
    {test : T → Bool} (htest : ∀ value, P value → test value = false) :
    values.any test = values'.any test := by
  rw [Bool.eq_iff_iff, List.any_eq_true, List.any_eq_true]
  constructor
  · rintro ⟨value, hv, ht⟩
    exact ⟨value, h.kept value hv, ht⟩
  · rintro ⟨value, hv, ht⟩
    refine ⟨value, (h.added value hv).resolve_right fun hP => ?_, ht⟩
    rw [htest value hP] at ht
    cases ht

/-- Computations agree when each succeeds if the other does, with related results. -/
theorem Agree.of_forall {R : T → U → Prop} {x : Except E T} {y : Except E U}
    (h : ∀ a, x = .ok a → ∃ b, y = .ok b ∧ R a b) (h' : ∀ b, y = .ok b → ∃ a, x = .ok a) :
    Agree R x y := by
  cases hx : x with
  | ok a =>
    obtain ⟨b, hb, hR⟩ := h a hx
    rw [hb]
    exact hR
  | error e =>
    cases hy : y with
    | error e' => exact trivial
    | ok b =>
      obtain ⟨a, ha⟩ := h' b hy
      rw [ha] at hx
      cases hx

/-- Further members that the test rejects are not kept. -/
theorem Adds.keep {P : T → Prop} {values values' : List T} (h : Adds P values values')
    {test : T → Except E Bool} (htest : ∀ value, P value → test value = .ok false) :
    Agree SameMembers (keep test values) (keep test values') := by
  apply Agree.of_forall
  · intro kept hkept
    have hall := exists_keep_iff.mp ⟨kept, hkept⟩
    have hall' : ∀ value ∈ values', ∃ b, test value = .ok b := by
      intro value hv
      rcases h.added value hv with hold | hP
      · exact hall value hold
      · exact ⟨false, htest value hP⟩
    obtain ⟨kept', hkept'⟩ := exists_keep_iff.mpr hall'
    refine ⟨kept', hkept', sameMembers_iff.mpr fun value => ?_⟩
    rw [mem_keep hkept, mem_keep hkept']
    constructor
    · rintro ⟨hv, ht⟩
      exact ⟨h.kept value hv, ht⟩
    · rintro ⟨hv, ht⟩
      refine ⟨(h.added value hv).resolve_right fun hP => ?_, ht⟩
      rw [htest value hP] at ht
      cases ht
  · intro kept' hkept'
    have hall' := exists_keep_iff.mp ⟨kept', hkept'⟩
    exact exists_keep_iff.mpr fun value hv => hall' value (h.kept value hv)

end Js
