import Mathlib.Tactic

/-!
# Runs of fallible steps

A list of operations is run one after the other from a state, and the first that
fails ends the run. A run over two lists is the run over the first and then over
the second; a run without a result has a first operation that fails. What every
step keeps, every run keeps. Of steps that cannot fail, what those keep that meet
a condition holds after every run whose steps all meet it.
-/

namespace T3x.Run

variable {Op S T : Type}

/-- The state after the operations, if none fails. -/
def run (step : Op → S → Option S) (s : S) (ops : List Op) : Option S :=
  ops.foldlM (fun s op => step op s) s

variable {step : Op → S → Option S} {s : S} {op : Op} {ops : List Op}

/-- No operation leaves the state. -/
@[simp] theorem run_nil : run step s [] = some s := rfl

/-- The first operation is run before the others. -/
@[simp] theorem run_cons : run step s (op :: ops) = (step op s).bind fun t => run step t ops := rfl

/-- One list is run after the other. -/
theorem run_append {ops' : List Op} :
    run step s (ops ++ ops') = (run step s ops).bind fun t => run step t ops' := by
  induction ops generalizing s with
  | nil => rfl
  | cons op ops ih =>
    rw [List.cons_append, run_cons, run_cons, Option.bind_assoc]
    exact congrArg _ (funext fun t => ih)

/-- A run without a result has a first operation that fails where the operations
before it lead. -/
theorem exists_first_failure (h : run step s ops = none) :
    ∃ before op after t, ops = before ++ op :: after ∧ run step s before = some t ∧
      step op t = none := by
  induction ops generalizing s with
  | nil => cases h
  | cons op ops ih =>
    cases hstep : step op s with
    | none => exact ⟨[], op, ops, s, rfl, rfl, hstep⟩
    | some t =>
      rw [run_cons, hstep] at h
      obtain ⟨before, op', after, u, rfl, hrun, hfail⟩ := ih h
      refine ⟨op :: before, op', after, u, rfl, ?_, hfail⟩
      rw [run_cons, hstep]
      exact hrun

/-- What every step keeps holds after every run. -/
theorem run_invariant {Inv : S → Prop} (hstep : ∀ op s t, step op s = some t → Inv s → Inv t)
    {t : S} (h : run step s ops = some t) (hs : Inv s) : Inv t := by
  induction ops generalizing s with
  | nil =>
    obtain rfl := Option.some.inj h
    exact hs
  | cons op ops ih =>
    obtain ⟨u, hu, hrest⟩ := Option.bind_eq_some_iff.mp h
    exact ih hrest (hstep op s u hu hs)

/-! ## Runs of total steps -/

section total

variable {apply : S → Op → S} {Meets : S → Op → Prop}

/-- Each operation meets the condition in the state that the operations before it lead to. -/
def AllMeet (apply : S → Op → S) (Meets : S → Op → Prop) : S → List Op → Prop
  | _, [] => True
  | s, op :: ops => Meets s op ∧ AllMeet apply Meets (apply s op) ops

/-- What every step that meets the condition keeps holds after every run whose steps all do. -/
theorem AllMeet.invariant {Inv : S → Prop} (h : AllMeet apply Meets s ops)
    (hstep : ∀ s op, Meets s op → Inv s → Inv (apply s op)) (hs : Inv s) :
    Inv (ops.foldl apply s) := by
  induction ops generalizing s with
  | nil => exact hs
  | cons op ops ih => exact ih h.2 (hstep s op h.1 hs)

end total

end T3x.Run
