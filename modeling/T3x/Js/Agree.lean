import T3x.Js.Equal

/-!
# Results that agree

Two computations agree when both fail or both succeed with related results. The
relation is preserved by sequencing, so that a function that reads a value only
up to the order of members agrees on equal values step by step.
-/

namespace Js

section

variable {E S T S' T' : Type} {R : S → T → Prop} {R' : S' → T' → Prop}

/-- Both results are errors, or both are good and related. -/
def Agree (R : S → T → Prop) : Except E S → Except E T → Prop
  | .ok a, .ok b => R a b
  | .error _, .error _ => True
  | _, _ => False

/-- Good results that are related agree. -/
theorem Agree.ok {a : S} {b : T} (h : R a b) : Agree (E := E) R (.ok a) (.ok b) := h

/-- Returned results that are related agree. -/
theorem Agree.pure {a : S} {b : T} (h : R a b) :
    Agree R (Pure.pure a : Except E S) (Pure.pure b : Except E T) := h

/-- Errors agree. -/
theorem Agree.error (e e' : E) : Agree R (.error e) (.error e') := trivial

/-- Thrown errors agree. -/
theorem Agree.throw (e e' : E) :
    Agree R (MonadExcept.throw e : Except E S) (MonadExcept.throw e' : Except E T) := trivial

/-- Computations that agree and go on alike agree. -/
theorem Agree.bind {x : Except E S} {y : Except E T} {f : S → Except E S'} {g : T → Except E T'}
    (h : Agree R x y) (hf : ∀ a b, R a b → Agree R' (f a) (g b)) :
    Agree R' (x >>= f) (y >>= g) := by
  cases x with
  | error e =>
    cases y with
    | error e' => exact trivial
    | ok b => exact h.elim
  | ok a =>
    cases y with
    | error e' => exact h.elim
    | ok b => exact hf a b h

/-- Sequences that begin alike agree when what follows does. -/
theorem Agree.bind_self {x : Except E S} {f : S → Except E S'} {g : S → Except E T'}
    (hf : ∀ a, x = .ok a → Agree R' (f a) (g a)) : Agree R' (x >>= f) (x >>= g) := by
  cases x with
  | error e => exact trivial
  | ok a => exact hf a rfl

/-- Computations that agree and are mapped to related results agree. -/
theorem Agree.map {x : Except E S} {y : Except E T} {f : S → S'} {g : T → T'}
    (h : Agree R x y) (hf : ∀ a b, R a b → R' (f a) (g b)) : Agree R' (x.map f) (y.map g) := by
  cases x with
  | error e =>
    cases y with
    | error e' => exact trivial
    | ok b => exact h.elim
  | ok a =>
    cases y with
    | error e' => exact h.elim
    | ok b => exact hf a b h

/-- Branches on one condition agree when both alternatives do. -/
theorem Agree.ite {c : Prop} [Decidable c] {x x' : Except E S} {y y' : Except E T}
    (h : c → Agree R x y) (h' : ¬ c → Agree R x' y') :
    Agree R (if c then x else x') (if c then y else y') := by
  split_ifs with hc
  · exact h hc
  · exact h' hc

/-- A good result agrees with a good one only. -/
theorem Agree.of_ok {x : Except E S} {y : Except E T} {a : S} (h : Agree R x y) (hx : x = .ok a) :
    ∃ b, y = .ok b ∧ R a b := by
  subst hx
  cases y with
  | error e => exact h.elim
  | ok b => exact ⟨b, rfl, h⟩

/-- A sequence is good exactly when both of its computations are. -/
theorem bind_eq_ok_iff {x : Except E S} {f : S → Except E S'} {b : S'} :
    x >>= f = .ok b ↔ ∃ a, x = .ok a ∧ f a = .ok b := by
  cases x with
  | error e =>
    refine ⟨fun h => ?_, fun ⟨_, h, _⟩ => by simp at h⟩
    exact absurd h (by simp [Bind.bind, Except.bind])
  | ok a => exact ⟨fun h => ⟨a, Eq.refl _, h⟩, fun ⟨_, h, hf⟩ => Except.ok.inj h ▸ hf⟩

/-- A mapped computation is good exactly when the computation is. -/
theorem map_eq_ok_iff {x : Except E S} {f : S → S'} {b : S'} :
    x.map f = .ok b ↔ ∃ a, x = .ok a ∧ f a = b := by
  cases x <;> simp [Except.map]

/-- A sequence of good computations is good. -/
theorem exists_bind {x : Except E S} {f : S → Except E S'} {a : S} (h : x = .ok a)
    (hf : ∃ b, f a = .ok b) : ∃ b, x >>= f = .ok b := by
  obtain ⟨b, hb⟩ := hf
  exact ⟨b, bind_eq_ok_iff.mpr ⟨a, h, hb⟩⟩

/-- What stands behind a refusal is good exactly when nothing is refused and it is good. -/
theorem refuse_eq_ok_iff {c : Prop} [Decidable c] {e : E} {f : S → Except E S'}
    {x : Except E S'} {b : S'} :
    (if c then (MonadExcept.throw e : Except E S) >>= f else x) = .ok b ↔ ¬ c ∧ x = .ok b := by
  split_ifs with hc
  · refine ⟨fun h => ?_, fun h => absurd hc h.1⟩
    cases h
  · exact ⟨fun h => ⟨hc, h⟩, fun h => h.2⟩

/-- What stands beside an error is good exactly when the error is not raised and it is good. -/
theorem throw_else_eq_ok_iff {c : Prop} [Decidable c] {e : E} {x : Except E S} {b : S} :
    (if c then (MonadExcept.throw e : Except E S) else x) = .ok b ↔ ¬ c ∧ x = .ok b := by
  split_ifs with hc
  · refine ⟨fun h => ?_, fun h => absurd hc h.1⟩
    cases h
  · exact ⟨fun h => ⟨hc, h⟩, fun h => h.2⟩

/-- A list of computations is good exactly when each of them is. -/
theorem mapM_eq_ok_iff {f : S → Except E S'} {xs : List S} {ys : List S'} :
    xs.mapM f = .ok ys ↔ List.Forall₂ (fun x y => f x = .ok y) xs ys := by
  induction xs generalizing ys with
  | nil =>
    rw [List.mapM_nil, List.forall₂_nil_left_iff]
    exact ⟨fun h => (Except.ok.inj h).symm, fun h => h ▸ Eq.refl _⟩
  | cons x xs ih =>
    rw [List.mapM_cons, bind_eq_ok_iff, List.forall₂_cons_left_iff]
    constructor
    · rintro ⟨y, hy, hrest⟩
      obtain ⟨ys', hys', hcons⟩ := bind_eq_ok_iff.mp hrest
      exact ⟨y, ys', hy, ih.mp hys', (Except.ok.inj hcons).symm⟩
    · rintro ⟨y, ys', hy, hys', hcons⟩
      subst hcons
      exact ⟨y, hy, bind_eq_ok_iff.mpr ⟨ys', ih.mpr hys', Eq.refl _⟩⟩

/-- Each of a good list of computations has one of the results. -/
theorem exists_of_mapM_eq_ok {f : S → Except E S'} {xs : List S} {ys : List S'}
    (h : xs.mapM f = .ok ys) {x : S} (hx : x ∈ xs) : ∃ y ∈ ys, f x = .ok y := by
  have hall := mapM_eq_ok_iff.mp h
  clear h
  induction hall with
  | nil => exact absurd hx List.not_mem_nil
  | @cons x' y xs ys hxy _ ih =>
    rcases List.mem_cons.mp hx with hx | hx
    · exact ⟨y, List.mem_cons_self, hx ▸ hxy⟩
    · obtain ⟨y', hy', hfxy⟩ := ih hx
      exact ⟨y', List.mem_cons_of_mem _ hy', hfxy⟩

/-- A list of computations has good results exactly when each of them has one. -/
theorem exists_mapM_iff {f : S → Except E S'} {xs : List S} :
    (∃ ys, xs.mapM f = .ok ys) ↔ ∀ x ∈ xs, ∃ y, f x = .ok y := by
  induction xs with
  | nil => exact ⟨fun _ x hx => absurd hx List.not_mem_nil, fun _ => ⟨[], Eq.refl _⟩⟩
  | cons x xs ih =>
    rw [List.forall_mem_cons, ← ih, List.mapM_cons]
    constructor
    · rintro ⟨ys, hys⟩
      obtain ⟨y, hy, hrest⟩ := bind_eq_ok_iff.mp hys
      obtain ⟨ys', hys', -⟩ := bind_eq_ok_iff.mp hrest
      exact ⟨⟨y, hy⟩, ys', hys'⟩
    · rintro ⟨⟨y, hy⟩, ys', hys'⟩
      exact ⟨y :: ys', bind_eq_ok_iff.mpr ⟨y, hy, bind_eq_ok_iff.mpr ⟨ys', hys', Eq.refl _⟩⟩⟩

/-- Every good result of a computation has a property. -/
def Returns (x : Except E S) (P : S → Prop) : Prop := ∀ a, x = .ok a → P a

/-- A returned result with the property. -/
theorem Returns.pure {P : S → Prop} {a : S} (h : P a) :
    Returns (Pure.pure a : Except E S) P := fun _ ha => Except.ok.inj ha ▸ h

/-- An error returns nothing. -/
theorem Returns.throw {P : S → Prop} (e : E) :
    Returns (MonadExcept.throw e : Except E S) P := by
  intro a ha
  cases ha

/-- A sequence that begins with an error returns nothing. -/
theorem Returns.throw_bind {f : S → Except E S'} {P : S' → Prop} (e : E) :
    Returns ((MonadExcept.throw e : Except E S) >>= f) P := by
  intro a ha
  cases ha

/-- What is returned at the end of a sequence is returned by the sequence. -/
theorem Returns.bind {x : Except E S} {f : S → Except E S'} {P : S' → Prop}
    (h : ∀ a, Returns (f a) P) : Returns (x >>= f) P := by
  intro b hb
  obtain ⟨a, -, hf⟩ := bind_eq_ok_iff.mp hb
  exact h a b hf

/-- What both branches return is returned. -/
theorem Returns.ite {c : Prop} [Decidable c] {x y : Except E S} {P : S → Prop}
    (h : c → Returns x P) (h' : ¬ c → Returns y P) : Returns (if c then x else y) P := by
  split_ifs with hc
  · exact h hc
  · exact h' hc

/-- Good results that agree and have a further relation agree in both. -/
theorem Agree.and {x : Except E S} {y : Except E T} {Q : S → T → Prop} (h : Agree R x y)
    (hQ : ∀ a b, x = .ok a → y = .ok b → Q a b) : Agree (fun a b => R a b ∧ Q a b) x y := by
  cases x with
  | error e =>
    cases y with
    | error e' => exact trivial
    | ok b => exact h.elim
  | ok a =>
    cases y with
    | error e' => exact h.elim
    | ok b => exact ⟨h, hQ a b rfl rfl⟩

/-- A computation agrees with itself. -/
theorem Agree.rfl {x : Except E S} : Agree Eq x x := by
  cases x with
  | error e => exact trivial
  | ok a => exact Eq.refl a

end

/-! ## Values and records that read alike -/

/-- The values are equal up to the order of members and the sign of zero. -/
def JsValue.Same (a b : JsValue) : Prop :=
  a.denote JsNumber.dropZeroSign = b.denote JsNumber.dropZeroSign

/-- The records read alike under every name. -/
def Record.Same (m m' : Record JsValue) : Prop :=
  ∀ key, (Record.get m key).map (JsValue.denote JsNumber.dropZeroSign) =
    (Record.get m' key).map (JsValue.denote JsNumber.dropZeroSign)

/-- Every value is the same as itself. -/
theorem JsValue.Same.refl (a : JsValue) : JsValue.Same a a := rfl

/-- A value is the same as a string only if it is the string. -/
theorem JsValue.same_str_iff {a : JsValue} {s : JsString} :
    JsValue.Same a (.str s) ↔ a = .str s := by
  cases a <;> simp [JsValue.Same]

/-- The same values are both a given string or neither is. -/
theorem JsValue.Same.eq_str_iff {a b : JsValue} (h : JsValue.Same a b) {s : JsString} :
    a = .str s ↔ b = .str s := by
  constructor
  · rintro rfl
    exact JsValue.same_str_iff.mp h.symm
  · rintro rfl
    exact JsValue.same_str_iff.mp h

/-- What the same values are: one leaf, arrays of the same items or objects of the same
members. -/
inductive JsValue.SameCases : JsValue → JsValue → Prop
  | leaf {a : JsValue} (h : (∀ items, a ≠ .arr items) ∧ (∀ members, a ≠ .obj members)) :
      SameCases a a
  | num (n n' : JsNumber) : SameCases (.num n) (.num n')
  | arr {items items' : List JsValue} (h : List.Forall₂ JsValue.Same items items') :
      SameCases (.arr items) (.arr items')
  | obj {members members' : Record JsValue} (h : Record.Same members members') :
      SameCases (.obj members) (.obj members')

/-- Lists of one reading have the same items. -/
theorem forall₂_same_of_map_eq {items items' : List JsValue}
    (h : items.map (JsValue.denote JsNumber.dropZeroSign) =
      items'.map (JsValue.denote JsNumber.dropZeroSign)) :
    List.Forall₂ JsValue.Same items items' := by
  rw [← List.forall₂_eq_eq_eq, List.forall₂_map_left_iff, List.forall₂_map_right_iff] at h
  exact h

/-- The cases of the same values. -/
theorem JsValue.Same.cases {a b : JsValue} (h : JsValue.Same a b) : JsValue.SameCases a b := by
  cases a with
  | null =>
    cases b <;> first | exact .leaf ⟨by simp, by simp⟩ | simp [JsValue.Same] at h
  | bool x =>
    cases b with
    | bool y =>
      obtain rfl : x = y := by simpa [JsValue.Same] using h
      exact .leaf ⟨by simp, by simp⟩
    | _ => simp [JsValue.Same] at h
  | num n =>
    cases b with
    | num n' => exact .num n n'
    | _ => simp [JsValue.Same] at h
  | str s =>
    obtain rfl := JsValue.same_str_iff.mp h.symm
    exact .leaf ⟨by simp, by simp⟩
  | arr items =>
    cases b with
    | arr items' => exact .arr (forall₂_same_of_map_eq (by simpa [JsValue.Same] using h))
    | _ => simp [JsValue.Same] at h
  | obj members =>
    cases b with
    | obj members' => exact .obj (JsValue.denote_obj_eq_iff.mp h)
    | _ => simp [JsValue.Same] at h

/-- Records that read alike have the same names. -/
theorem Record.Same.has_eq {m m' : Record JsValue} (h : Record.Same m m') (key : JsString) :
    Record.has m key = Record.has m' key := by
  have hkey := congrArg Option.isSome (h key)
  rwa [Option.isSome_map, Option.isSome_map] at hkey

/-- Records that read alike have the same values. -/
theorem Record.Same.getD {m m' : Record JsValue} (h : Record.Same m m') (key : JsString)
    (value : JsValue) :
    JsValue.Same ((Record.get m key).getD value) ((Record.get m' key).getD value) := by
  have hkey := h key
  cases hm : Record.get m key <;> cases hm' : Record.get m' key <;> rw [hm, hm'] at hkey
  · exact .refl value
  · simp at hkey
  · simp at hkey
  · exact Option.some.inj hkey

end Js
