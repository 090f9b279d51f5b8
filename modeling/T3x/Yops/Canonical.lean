import T3x.Js.Agree
import T3x.Js.Json
import T3x.Js.Order

/-!
# Equality keys and the order of values

The canonical key of a value is its JSON text with the members of every mapping
sorted by code point. Values are ordered by the rank of their type, then by
their own order, mappings and sequences by their canonical keys.
-/

namespace T3x.Yops

open Js

/-- `canonicalKey`. -/
def canonicalKey (value : JsValue) : JsString := value.encode (Record.sorted compareCodepoints)

/-- `canonicalJson`. -/
def canonicalJson (value : JsValue) : JsString := canonicalKey value

/-- `JSON.stringify(value)`. -/
def stringify (value : JsValue) : JsString := value.encode Record.entries

/-- `rankOf`. -/
def rankOf : JsValue → ℤ
  | .null => 0
  | .bool _ => 1
  | .num _ => 2
  | .str _ => 3
  | .arr _ => 4
  | .obj _ => 5

/-- `compareYValues`. -/
def compareYValues (a b : JsValue) : ℤ :=
  if rankOf a ≠ rankOf b then rankOf a - rankOf b
  else
    match a, b with
    | .null, .null => 0
    | .bool x, .bool y => if x = y then 0 else if x then 1 else -1
    | .num x, .num y => if x.lt y then -1 else if y.lt x then 1 else 0
    | .str s, .str t => compareCodepoints s t
    | _, _ => compareCodepoints (canonicalKey a) (canonicalKey b)

/-- Canonical keys are equal exactly when the values are the same up to the order of
members. -/
theorem canonicalKey_eq_iff {a b : JsValue} : canonicalKey a = canonicalKey b ↔ JsValue.Same a b :=
  JsValue.encode_sorted_eq_iff isStringOrder_compareCodepoints

end T3x.Yops
