import T3x.Js.Equal

/-!
# Locations in a value

A location is a list of member names. A value is read at a location through
own members of objects; where a name is no member, or the value is no object,
nothing is there.
-/

namespace Js

/-- The names from the root of a value to a place in it. -/
abbrev Location := List JsString

/-- An optional value up to the order of members. -/
def reading (f : JsNumber → JsNumber) (value : Option JsValue) : Option Doc :=
  value.map (JsValue.denote f)

/-- Whether two optional values read alike. -/
def sameReading (f : JsNumber → JsNumber) : Option JsValue → Option JsValue → Bool
  | none, none => true
  | some a, some b => JsValue.sameDoc f a b
  | _, _ => false

/-- The test decides whether two optional values read alike. -/
theorem sameReading_iff {f : JsNumber → JsNumber} (a b : Option JsValue) :
    sameReading f a b = true ↔ reading f a = reading f b := by
  cases a <;> cases b <;> simp [sameReading, reading, JsValue.sameDoc_iff]

instance {f : JsNumber → JsNumber} {a b : Option JsValue} :
    Decidable (reading f a = reading f b) :=
  decidable_of_iff _ (sameReading_iff a b)

/-- The own member of an object, and nothing for any other value. -/
def member : Option JsValue → JsString → Option JsValue
  | some (.obj members), key => Record.get members key
  | _, _ => none

/-- Whether an optional value is an object. -/
def isObj : Option JsValue → Bool
  | some (.obj _) => true
  | _ => false

/-- The value at a location. -/
def valueAt (value : Option JsValue) (loc : Location) : Option JsValue := loc.foldl member value

variable {f : JsNumber → JsNumber} {v w : Option JsValue}

/-- The value at the empty location. -/
@[simp] theorem valueAt_nil : valueAt v [] = v := rfl

/-- The value at a location below a member. -/
@[simp] theorem valueAt_cons (key : JsString) (loc : Location) :
    valueAt v (key :: loc) = valueAt (member v key) loc := rfl

/-- Nothing has no members. -/
@[simp] theorem member_none (key : JsString) : member none key = none := rfl

/-- Nothing is at a location of nothing. -/
@[simp] theorem valueAt_none (loc : Location) : valueAt none loc = none := by
  induction loc with
  | nil => rfl
  | cons key loc ih => rw [valueAt_cons, member_none, ih]

/-- The members of an object. -/
@[simp] theorem member_obj (m : Record JsValue) (key : JsString) :
    member (some (.obj m)) key = Record.get m key := rfl

/-- An optional value is an object exactly when it is one. -/
theorem isObj_iff : isObj v = true ↔ ∃ m, v = some (.obj m) := by
  constructor
  · intro h
    rcases v with _ | (_ | _ | _ | _ | _ | m) <;> simp [isObj] at h
    exact ⟨m, rfl⟩
  · rintro ⟨m, rfl⟩
    rfl

/-- Values that read alike have members that read alike. -/
theorem reading_member (h : reading f v = reading f w) (key : JsString) :
    reading f (member v key) = reading f (member w key) := by
  rcases v with _ | v
  · rcases w with _ | w
    · rfl
    · simp [reading] at h
  rcases w with _ | w
  · simp [reading] at h
  have hvw := Option.some.inj h
  cases v <;> cases w <;> first
    | rfl
    | (simp at hvw; done)
    | exact JsValue.denote_obj_eq_iff.mp hvw key

/-- Values that read alike read alike at every location. -/
theorem reading_valueAt (h : reading f v = reading f w) (loc : Location) :
    reading f (valueAt v loc) = reading f (valueAt w loc) := by
  induction loc generalizing v w with
  | nil => exact h
  | cons key loc ih => exact ih (reading_member h key)

/-- Values that read alike are both objects or neither. -/
theorem isObj_congr (h : reading f v = reading f w) : isObj v = isObj w := by
  rcases v with _ | v
  · rcases w with _ | w
    · rfl
    · simp [reading] at h
  rcases w with _ | w
  · simp [reading] at h
  have hvw := Option.some.inj h
  cases v <;> cases w <;> first
    | rfl
    | simp at hvw

/-- Two objects whose members read alike read alike. -/
theorem reading_obj {m m' : Record JsValue}
    (h : ∀ key, reading f (Record.get m key) = reading f (Record.get m' key)) :
    reading f (some (.obj m)) = reading f (some (.obj m')) :=
  congrArg some (JsValue.denote_obj_eq_iff.mpr h)

/-- The induction over an optional value, from the members of an object. -/
@[elab_as_elim] theorem member_induct {P : Option JsValue → Prop}
    (step : ∀ v, (∀ m, v = some (.obj m) → ∀ key, P (Record.get m key)) → P v)
    (v : Option JsValue) : P v := by
  have hnone : P none := step none (by simp)
  rcases v with _ | v
  · exact hnone
  induction v using JsValue.induct with
  | obj m ih =>
    refine step _ ?_
    intro m' hm' key
    obtain rfl : m = m' := by simpa using hm'
    cases hv : Record.get m key with
    | none => exact hnone
    | some v => exact ih _ (Record.mem_of_get hv)
  | _ => exact step _ (by simp)

/-! ## Values replaced at locations -/

/-- `result` is `value` with the values at some locations replaced by chosen
ones, `none` standing for a removal. -/
structure IsPatched (f : JsNumber → JsNumber) (value : Option JsValue) (patched : Location → Prop)
    (chosen : Location → Option JsValue) (result : Option JsValue) : Prop where
  /-- The chosen value stands at every replaced location. -/
  at_patched : ∀ loc, patched loc → reading f (valueAt result loc) = reading f (chosen loc)
  /-- A location that is neither above nor below a replaced one is unchanged. -/
  elsewhere : ∀ loc, (∀ c, patched c → ¬ c <+: loc ∧ ¬ loc <+: c) →
    reading f (valueAt result loc) = reading f (valueAt value loc)
  /-- Above a replaced location there are objects. -/
  above : ∀ loc c, patched c → loc <+: c → loc ≠ c → isObj (valueAt result loc) = true

variable {value result result' : Option JsValue} {patched : Location → Prop}
  {chosen : Location → Option JsValue} {loc : Location}

/-- Patching nowhere changes nothing. -/
theorem isPatched_nowhere : IsPatched f value (fun _ => False) chosen value where
  at_patched _ h := h.elim
  elsewhere _ _ := rfl
  above _ _ h := h.elim

/-- Patching one more location, neither above nor below the earlier ones. -/
theorem IsPatched.insert {patchedValue : Option JsValue}
    (h : IsPatched f value patched chosen result)
    (hone : IsPatched f result (· = loc) (fun _ => patchedValue) result')
    (hvalue : reading f patchedValue = reading f (chosen loc))
    (hfree : ∀ c, patched c → ¬ c <+: loc ∧ ¬ loc <+: c) :
    IsPatched f value (fun c => patched c ∨ c = loc) chosen result' where
  at_patched c hc := by
    rcases hc with hc | rfl
    · rw [hone.elsewhere c (by rintro _ rfl; exact (hfree c hc).symm), h.at_patched c hc]
    · rw [hone.at_patched c rfl, hvalue]
  elsewhere c hc := by
    rw [hone.elsewhere c (fun d hd => hc d (.inr hd)), h.elsewhere c fun d hd => hc d (.inl hd)]
  above c d hd hpre hne := by
    rcases hd with hd | rfl
    · by_cases hbelow : c <+: loc
      · refine hone.above c loc rfl hbelow ?_
        rintro rfl
        exact (hfree d hd).2 hpre
      · have hnot : ¬ loc <+: c := fun hloc => (hfree d hd).2 (hloc.trans hpre)
        rw [isObj_congr (hone.elsewhere c (by rintro _ rfl; exact ⟨hnot, hbelow⟩))]
        exact h.above c d hd hpre hne
    · exact hone.above c d rfl hpre hne

end Js
