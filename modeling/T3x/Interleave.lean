import Mathlib.Tactic.Common
import Mathlib.Logic.Function.Basic

/-!
# Interleaved programs

Any number of programs share one state. A program is a sequence of actions; an
action waits until the state is ready for it, rewrites the state in one step, and
leaves what it saw to the rest of its program. A run lets one program after the
other take its next action, in any order.

A program meets its promise when every action of its own is within what it
guarantees, as long as the others do what it relies on. Programs whose guarantees
are what the others rely on meet their promises in every run.
-/

namespace T3x.Interleave

/-- A program over a shared state. -/
inductive Prog (S E α : Type) where
  /-- The program has ended. -/
  | done (result : Except E α)
  /-- The next action waits for a ready state, rewrites it, and goes on with the state it saw. -/
  | act (ready : S → Bool) (write : S → S) (next : S → Prog S E α)

namespace Prog

variable {S E α β : Type}

/-- One program after the other; a failure ends both. -/
def bind : Prog S E α → (α → Prog S E β) → Prog S E β
  | done (.ok a), rest => rest a
  | done (.error e), _ => done (.error e)
  | act ready write next, rest => act ready write fun s => (next s).bind rest

instance : Monad (Prog S E) where
  pure a := done (.ok a)
  bind := bind

/-- The program ends with a failure. -/
def fail (e : E) : Prog S E α := done (.error e)

/-- The program ends, or goes on, as a computation of its own says. -/
def lift (result : Except E α) : Prog S E α := done result

/-- What the state says, in one action that writes nothing. -/
def query (read : S → α) : Prog S E α := act (fun _ => true) id fun s => done (.ok (read s))

/-- A transaction in one action: it commits its state, or fails and leaves the state. -/
def atomically (transaction : S → Except E (α × S)) : Prog S E α :=
  act (fun _ => true)
    (fun s => match transaction s with
      | .ok (_, t) => t
      | .error _ => s)
    fun s => done ((transaction s).map Prod.fst)

/-- The program, with another form of its result. -/
def mapResult (f : α → β) : Prog S E α → Prog S E β
  | done result => done (result.map f)
  | act ready write next => act ready write fun s => (next s).mapResult f

/-- The next action of a program, where the state is ready for it. -/
def step : Prog S E α → S → Option (S × Prog S E α)
  | done _, _ => none
  | act ready write next, s => if ready s then some (write s, next s) else none

/-- A result is handed to the rest of the program. -/
@[simp] theorem done_ok_bind {a : α} {rest : α → Prog S E β} :
    (done (.ok a) : Prog S E α) >>= rest = rest a := rfl

/-- A result is handed to the rest of the program. -/
@[simp] theorem pure_bind {a : α} {rest : α → Prog S E β} :
    (pure a : Prog S E α) >>= rest = rest a := rfl

/-- A failure ends the program. -/
@[simp] theorem done_error_bind {e : E} {rest : α → Prog S E β} :
    (done (.error e) : Prog S E α) >>= rest = done (.error e) := rfl

/-- A failure ends the program. -/
@[simp] theorem fail_bind {e : E} {rest : α → Prog S E β} :
    (fail e : Prog S E α) >>= rest = fail e := rfl

/-- A computation that succeeds hands over its value. -/
@[simp] theorem lift_ok_bind {a : α} {rest : α → Prog S E β} :
    (lift (.ok a) : Prog S E α) >>= rest = rest a := rfl

/-- A computation that fails ends the program. -/
@[simp] theorem lift_error_bind {e : E} {rest : α → Prog S E β} :
    (lift (.error e) : Prog S E α) >>= rest = done (.error e) := rfl

end Prog

/-! ## Promises -/

variable {S E α β ι : Type}

/-- From the state on, each action of the program is within the guarantee and its result
has the postcondition, while the others act within the rely condition. Only actions that
are taken where they are allowed to be count. -/
def Meets (allowed : Prog S E α → S → Prop) (rely guar : S → S → Prop)
    (post : Except E α → S → Prop) : Prog S E α → S → Prop
  | .done result, s => ∀ t, rely s t → post result t
  | .act ready write next, s => ∀ t, rely s t → ready t = true →
      allowed (.act ready write next) t →
        guar t (write t) ∧ Meets allowed rely guar post (next t) (write t)

section rules

variable {allowed : Prog S E α → S → Prop} {rely guar : S → S → Prop}
  {post : Except E α → S → Prop} {p q : Prog S E α} {s t : S}

/-- A promise lasts while the others act. -/
theorem Meets.later (htrans : ∀ {s t u}, rely s t → rely t u → rely s u)
    (h : Meets allowed rely guar post p s) (hrely : rely s t) :
    Meets allowed rely guar post p t := by
  cases p with
  | done result => exact fun u hu => h u (htrans hrely hu)
  | act ready write next => exact fun u hu => h u (htrans hrely hu)

/-- A promise may say less. -/
theorem Meets.mono {guar' : S → S → Prop} {post' : Except E α → S → Prop}
    (hguar : ∀ s t, guar s t → guar' s t) (hpost : ∀ result s, post result s → post' result s)
    (h : Meets allowed rely guar post p s) : Meets allowed rely guar' post' p s := by
  induction p generalizing s with
  | done result => exact fun t ht => hpost result t (h t ht)
  | act ready write next ih =>
    intro t ht hready hallowed
    obtain ⟨hstep, hnext⟩ := h t ht hready hallowed
    exact ⟨hguar _ _ hstep, ih t hnext⟩

/-- An action is within the guarantee, and leaves a program that meets the promise. -/
theorem Meets.step (hrefl : ∀ s, rely s s) (h : Meets allowed rely guar post p s)
    (hstep : p.step s = some (t, q)) (hallowed : allowed p s) :
    guar s t ∧ Meets allowed rely guar post q t := by
  cases p with
  | done result => cases hstep
  | act ready write next =>
    rw [Prog.step] at hstep
    split at hstep
    · next hready =>
      obtain ⟨rfl, rfl⟩ := hstep
      exact h s (hrefl s) hready hallowed
    · cases hstep

/-- A program that has ended has its postcondition. -/
theorem Meets.result (hrefl : ∀ s, rely s s) {result : Except E α}
    (h : Meets allowed rely guar post (.done result) s) : post result s :=
  h s (hrefl s)

/-- A program that only asks the state meets what its rest meets. -/
theorem meets_query {read : S → β} {rest : β → Prog S E α}
    (h : ∀ t, rely s t → guar t t ∧ Meets allowed rely guar post (rest (read t)) t) :
    Meets allowed rely guar post (Prog.query read >>= rest) s :=
  fun t ht _ _ => h t ht

/-- A transaction keeps within the guarantee, and the rest goes on from its state. -/
theorem meets_atomically {transaction : S → Except E (β × S)} {rest : β → Prog S E α}
    (hok : ∀ t b u, rely s t → transaction t = .ok (b, u) →
      guar t u ∧ Meets allowed rely guar post (rest b) u)
    (herror : ∀ t e, rely s t → transaction t = .error e →
      guar t t ∧ Meets allowed rely guar post (.done (.error e)) t) :
    Meets allowed rely guar post (Prog.atomically transaction >>= rest) s := by
  intro t ht _ _
  simp only
  cases htransaction : transaction t with
  | ok bu => exact hok t bu.1 bu.2 ht htransaction
  | error e => exact herror t e ht htransaction

/-- A program meets what its first part and, from there, its rest meet. -/
theorem Meets.bind {mid : Except E β → S → Prop} {p : Prog S E β} {rest : β → Prog S E α}
    (hrefl : ∀ s, rely s s) (h : Meets (fun p t => allowed (p >>= rest) t) rely guar mid p s)
    (hok : ∀ b t, mid (.ok b) t → Meets allowed rely guar post (rest b) t)
    (herror : ∀ e t, mid (.error e) t → Meets allowed rely guar post (.done (.error e)) t) :
    Meets allowed rely guar post (p >>= rest) s := by
  induction p generalizing s with
  | done result =>
    cases result with
    | ok b => exact hok b s (h s (hrefl s))
    | error e => exact herror e s (h s (hrefl s))
  | act ready write next ih =>
    intro t ht hready hallowed
    obtain ⟨hguar, hnext⟩ := h t ht hready hallowed
    exact ⟨hguar, ih t hnext⟩

/-- A computation meets the promise if it fails with a result that has the postcondition, or
succeeds with a value from which the rest meets it. -/
theorem meets_lift {result : Except E β} {rest : β → Prog S E α}
    (hok : ∀ b, result = .ok b → Meets allowed rely guar post (rest b) s)
    (herror : ∀ e t, result = .error e → rely s t → post (.error e) t) :
    Meets allowed rely guar post (Prog.lift result >>= rest) s := by
  cases hresult : result with
  | ok b => exact hok b hresult
  | error e => exact fun t ht => herror e t hresult ht

/-- The form of the result does not matter to the steps. -/
theorem Meets.mapResult {f : β → α} {p : Prog S E β}
    (h : Meets (fun _ _ => True) rely guar (fun result t => post (result.map f) t) p s) :
    Meets (fun _ _ => True) rely guar post (p.mapResult f) s := by
  induction p generalizing s with
  | done result => exact h
  | act ready write next ih =>
    intro t ht hready _
    obtain ⟨hguar, hnext⟩ := h t ht hready trivial
    exact ⟨hguar, ih t hnext⟩

/-! ## Programs that only read -/

/-- No action of the program writes. -/
def ReadOnly : Prog S E α → Prop
  | .done _ => True
  | .act _ write next => (∀ s, write s = s) ∧ ∀ s, ReadOnly (next s)

/-- A program that has ended reads only. -/
theorem readOnly_done {result : Except E α} : ReadOnly (.done result : Prog S E α) := trivial

/-- A computation reads only. -/
theorem readOnly_lift {result : Except E α} : ReadOnly (.lift result : Prog S E α) := trivial

/-- A query reads only. -/
theorem readOnly_query {read : S → α} : ReadOnly (.query read : Prog S E α) :=
  ⟨fun _ => rfl, fun _ => trivial⟩

/-- A program whose parts read only reads only. -/
theorem ReadOnly.bind {p : Prog S E β} {rest : β → Prog S E α} (h : ReadOnly p)
    (hrest : ∀ b, ReadOnly (rest b)) : ReadOnly (p >>= rest) := by
  induction p with
  | done result =>
    cases result with
    | ok b => exact hrest b
    | error e => exact trivial
  | act ready write next ih => exact ⟨h.1, fun s => ih s (h.2 s)⟩

/-- A program that only reads moves the state no further than the others do. -/
theorem ReadOnly.meets (htrans : ∀ {s t u}, rely s t → rely t u → rely s u)
    (hguar : ∀ s, guar s s) (h : ReadOnly p) (hrely : rely s t) :
    Meets (fun _ _ => True) rely guar (fun _ u => rely s u) p t := by
  induction p generalizing t with
  | done result => exact fun u hu => htrans hrely hu
  | act ready write next ih =>
    intro u hu _ _
    rw [h.1 u]
    exact ⟨hguar u, ih u (h.2 u) (htrans hrely hu)⟩

end rules

/-! ## Runs -/

/-- The shared state, and what each program still has to do. -/
structure World (S E α ι : Type) where
  /-- The shared state. -/
  state : S
  /-- The rest of each program. -/
  calls : ι → Prog S E α

variable [DecidableEq ι]

/-- One program takes its next action. -/
inductive Step : World S E α ι → ι → World S E α ι → Prop
  /-- The action rewrites the state and leaves the rest of the program. -/
  | act {w : World S E α ι} {i : ι} {t : S} {q : Prog S E α}
      (h : (w.calls i).step w.state = some (t, q)) : Step w i ⟨t, Function.update w.calls i q⟩

/-- The worlds that a run of allowed actions leads to. -/
inductive Reaches (allowed : Prog S E α → S → Prop) (w : World S E α ι) : World S E α ι → Prop
  /-- The run has not begun. -/
  | refl : Reaches allowed w w
  /-- The run goes on with an action. -/
  | step {v u : World S E α ι} {i : ι} (hrun : Reaches allowed w v)
      (hallowed : allowed (v.calls i) v.state) (hstep : Step v i u) : Reaches allowed w u

variable {allowed : Prog S E α → S → Prop} {w v u : World S E α ι}

/-- A run may go on from where another ended. -/
theorem Reaches.trans (h : Reaches allowed w v) (h' : Reaches allowed v u) :
    Reaches allowed w u := by
  induction h' with
  | refl => exact h
  | step _ hallowed hstep ih => exact ih.step hallowed hstep

/-- A run of actions that are allowed is one of actions that more is allowed for. -/
theorem Reaches.mono {allowed' : Prog S E α → S → Prop} (h : ∀ p s, allowed p s → allowed' p s)
    (hrun : Reaches allowed w v) : Reaches allowed' w v := by
  induction hrun with
  | refl => exact .refl
  | step _ hallowed hstep ih => exact ih.step (h _ _ hallowed) hstep

/-- Programs whose guarantees are what the others rely on keep their promises in every run,
and the state moves within the guarantees. -/
theorem Reaches.meets (rely guar : ι → S → S → Prop) (post : ι → Except E α → S → Prop)
    (moves : S → S → Prop) (hrefl : ∀ i s, rely i s s)
    (htrans : ∀ {i s t u}, rely i s t → rely i t u → rely i s u)
    (hcompatible : ∀ {i j s t}, i ≠ j → guar i s t → rely j s t)
    (hmoves : ∀ {i s t}, guar i s t → moves s t) (hmoves_refl : ∀ s, moves s s)
    (hmoves_trans : ∀ {s t u}, moves s t → moves t u → moves s u)
    (h : ∀ i, Meets allowed (rely i) (guar i) (post i) (w.calls i) w.state)
    (hrun : Reaches allowed w v) :
    moves w.state v.state ∧
      ∀ i, Meets allowed (rely i) (guar i) (post i) (v.calls i) v.state := by
  induction hrun with
  | refl => exact ⟨hmoves_refl _, h⟩
  | @step v u j _ hallowed hstep ih =>
    obtain ⟨hmoved, hmeets⟩ := ih
    obtain ⟨hstep⟩ := hstep
    obtain ⟨hguar, hrest⟩ := (hmeets j).step (hrefl j) hstep hallowed
    refine ⟨hmoves_trans hmoved (hmoves hguar), fun i => ?_⟩
    by_cases hij : i = j
    · subst hij
      simpa only [Function.update_self] using hrest
    · simp only [Function.update_of_ne hij]
      exact (hmeets i).later htrans (hcompatible (Ne.symm hij) hguar)

/-! ## A program that runs alone -/

omit [DecidableEq ι] in
/-- What a program still has to do, and the state, after actions that nothing interrupts. -/
inductive Alone (allowed : Prog S E α → S → Prop) : Prog S E α → S → Prog S E α → S → Prop
  /-- The program has not begun. -/
  | refl {p : Prog S E α} {s : S} : Alone allowed p s p s
  /-- The program takes its next action and goes on. -/
  | act {ready : S → Bool} {write : S → S} {next : S → Prog S E α} {q : Prog S E α} {s t : S}
      (hready : ready s = true) (hallowed : allowed (.act ready write next) s)
      (hrest : Alone allowed (next s) (write s) q t) : Alone allowed (.act ready write next) s q t

omit [DecidableEq ι] in
/-- A program may go on alone. -/
theorem Alone.trans {p q r : Prog S E α} {s t u : S} (h : Alone allowed p s q t)
    (h' : Alone allowed q t r u) : Alone allowed p s r u := by
  induction h with
  | refl => exact h'
  | act hready hallowed _ ih => exact .act hready hallowed (ih h')

/-- The form of the result does not matter to the actions. -/
theorem Alone.mapResult {P : S → Prop} {p q : Prog S E α} {s t : S} {f : α → β}
    (h : Alone (fun _ s => P s) p s q t) :
    Alone (fun _ s => P s) (p.mapResult f) s (q.mapResult f) t := by
  induction h with
  | refl => exact .refl
  | act hready hs _ ih => exact .act hready hs ih

/-- A run may let one program act alone. -/
theorem Alone.reaches {p q : Prog S E α} {s t : S} (h : Alone allowed p s q t) (i : ι)
    (hcall : w.calls i = p) (hstate : w.state = s) :
    Reaches allowed w ⟨t, Function.update w.calls i q⟩ := by
  induction h generalizing w with
  | refl =>
    subst hcall hstate
    rw [Function.update_eq_self]
    exact .refl
  | @act ready write next q s t hready hallowed _ ih =>
    subst hstate
    have hstep : (w.calls i).step w.state = some (write w.state, next w.state) := by
      rw [hcall, Prog.step, if_pos hready]
    have hrest := @ih ⟨write w.state, Function.update w.calls i (next w.state)⟩
      (Function.update_self i (next w.state) w.calls) rfl
    rw [Function.update_idem] at hrest
    exact (Reaches.refl.step (hcall ▸ hallowed) (.act hstep)).trans hrest

end T3x.Interleave
