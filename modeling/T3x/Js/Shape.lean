import T3x.Js.Token
import T3x.Js.Order
import Mathlib.Data.List.TakeWhile

/-!
# Shapes of values

A shape is a decidable condition on values, built as a schema library builds
it: strings, words, numbers, lists and closed objects with required and
optional members. Reading a member of a value that is no object gives nothing.
-/

namespace Js

/-- A condition that a schema puts on a value. -/
abbrev Shape := JsValue → Bool

/-- One member of a closed object. -/
structure ShapeField where
  /-- The name of the member. -/
  name : String
  /-- The shape of the member. -/
  shape : Shape
  /-- The member may be absent. -/
  isOptional : Bool := false

namespace Shape

/-- `z.string().min(least).max(greatest)`: the bounds count code units. -/
def string (least : ℕ) (greatest : Option ℕ) : Shape
  | .str s => decide (least ≤ s.length) && greatest.all fun n => decide (s.length ≤ n)
  | _ => false

/-- A string with a property, as `z.custom` tests it. -/
def stringThat (p : JsString → Bool) : Shape
  | .str s => p s
  | _ => false

/-- `z.enum(words)`; `z.literal` is the case of one word. -/
def word (words : List String) : Shape
  | .str s => words.any fun w => decide (js w = s)
  | _ => false

/-- `z.boolean()`. -/
def boolean : Shape
  | .bool _ => true
  | _ => false

/-- `z.literal(b)`. -/
def exactly (b : Bool) : Shape
  | .bool b' => b == b'
  | _ => false

/-- `z.number().int().min(least)`: a safe integer from the bound on. -/
def integer (least : ℤ) : Shape
  | .num n => decide (n.toRat.den = 1 ∧ |n.toRat.num| < 2 ^ 53 ∧ least ≤ n.toRat.num)
  | _ => false

/-- `z.array(shape).min(least).max(greatest)` with a further condition on the items. -/
def list (shape : Shape) (least : ℕ) (greatest : Option ℕ) (refine : List JsValue → Bool) : Shape
  | .arr items => items.all shape && decide (least ≤ items.length) &&
      (greatest.all fun n => decide (items.length ≤ n)) && refine items
  | _ => false

/-- `z.object(fields)`: members of other names are passed over. -/
def object (fields : List ShapeField) : Shape
  | .obj record =>
    fields.all fun f =>
      match Record.get record (js f.name) with
      | some value => f.shape value
      | none => f.isOptional
  | _ => false

/-- `z.object(fields).strict()`. -/
def closed (fields : List ShapeField) : Shape
  | .obj record =>
    (Record.keys record).all (fun key => fields.any fun f => decide (js f.name = key)) &&
      fields.all fun f =>
        match Record.get record (js f.name) with
        | some value => f.shape value
        | none => f.isOptional
  | _ => false

/-- `z.record(z.string(), shape)`. -/
def record (shape : Shape) : Shape
  | .obj members => (Record.entries members).all fun e => shape e.2
  | _ => false

/-- `z.union(shapes)`. -/
def anyOf (shapes : List Shape) : Shape := fun value => shapes.any fun shape => shape value

/-- A shape with a further condition on the value. -/
def refined (shape : Shape) (p : JsValue → Bool) : Shape := fun value => shape value && p value

end Shape

namespace JsValue

/-- The member of a value under a name. -/
def member (value : JsValue) (key : String) : JsValue :=
  match value with
  | .obj record => (Record.get record (js key)).getD .null
  | _ => .null

/-- Whether a value has a member under a name. -/
def hasMember (value : JsValue) (key : String) : Bool :=
  match value with
  | .obj record => Record.has record (js key)
  | _ => false

/-- The items of an array. -/
def items : JsValue → List JsValue
  | .arr items => items
  | _ => []

/-- The string that a value is. -/
def text : JsValue → JsString
  | .str s => s
  | _ => []

/-- The truth value that a value is. -/
def flag : JsValue → Bool
  | .bool b => b
  | _ => false

/-- The number that a value is. -/
def number : JsValue → JsNumber
  | .num n => n
  | _ => .zero

end JsValue

/-- A count as a number. -/
def countNumber (n : ℕ) : JsNumber := (numberOf (natToString n)).getD .zero

/-! ## Blank strings -/

/-- Whether `trim` removes a code unit: white space and line terminators. -/
def isSpace (u : UInt16) : Bool :=
  (9 ≤ u && u ≤ 13) || u = 32 || u = 0xA0 || u = 0x1680 || (0x2000 ≤ u && u ≤ 0x200A) ||
    u = 0x2028 || u = 0x2029 || u = 0x202F || u = 0x205F || u = 0x3000 || u = 0xFEFF

/-- `s.trim()`. -/
def trim (s : JsString) : JsString :=
  ((s.dropWhile isSpace).reverse.dropWhile isSpace).reverse

/-- Only a string of spaces is empty when trimmed. -/
theorem trim_eq_nil_iff {s : JsString} : trim s = [] ↔ ∀ u ∈ s, isSpace u = true := by
  unfold trim
  rw [List.reverse_eq_nil_iff, List.dropWhile_eq_nil_iff]
  constructor
  · intro h u hu
    by_contra hspace
    have hdrop : s.dropWhile isSpace ≠ [] := fun hnil =>
      hspace (List.dropWhile_eq_nil_iff.mp hnil u hu)
    have hhead := List.head_dropWhile_not isSpace hdrop
    have hmem : (s.dropWhile isSpace).head hdrop ∈ (s.dropWhile isSpace).reverse :=
      List.mem_reverse.mpr (List.head_mem hdrop)
    rw [h _ hmem] at hhead
    cases hhead
  · intro h u hu
    exact h u (List.dropWhile_subset isSpace (List.mem_reverse.mp hu))

end Js
