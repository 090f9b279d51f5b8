import T3x.Js.Agree
import T3x.Js.Shape

/-!
# Paths into a document

A path is a slash-separated text. A segment is a mapping key, an array index
`[n]` or the first array item whose member has a given text, `[key=value]`; a
segment that starts with `"` is a quoted key. The strict parser reports
malformed text; `parsePath` then falls back to splitting at every slash.
Reading, setting and deleting at a path rebuild the document along the path.
-/

namespace T3x.Yops

open Js

/-! ## Segments -/

/-- `PathSegment`. -/
inductive PathSegment where
  | key (value : JsString)
  | index (value : ℕ)
  | match (key value : JsString)
  deriving DecidableEq

/-- A syntax error of the strict parser: its code, message and offset. -/
structure PathSyntaxError where
  /-- The code. -/
  code : String
  /-- The message. -/
  message : JsString
  /-- Where in the text the error was found. -/
  offset : ℕ
  deriving DecidableEq

/-- `String(parseInt(digits, 10))` for the number that the digits denote. -/
def indexText (value : ℕ) : JsString :=
  ((numberOf (natToString value)).map JsNumber.toText).getD (js "Infinity")

/-- The text between an opening and a closing bracket that end the segment. -/
def bracketBody : JsString → Option JsString
  | [] => none
  | u :: rest =>
    if u = unit '[' ∧ rest.getLast? = some (unit ']') then some rest.dropLast else none

/-- `/^\[(\d+)\]$/`: the digits. -/
def indexDigits (raw : JsString) : Option JsString :=
  (bracketBody raw).filter fun body => !body.isEmpty && body.all isDigit

/-- `/^\[([^=\]]+)=([^\]]*)\]$/`: the key and the value. -/
def matchParts (raw : JsString) : Option (JsString × JsString) := do
  let body ← bracketBody raw
  let (key, value) := cut (unit '=') body
  if key ≠ [] ∧ unit '=' ∈ body ∧ unit ']' ∉ body then some (key, value) else none

/-- `classifyRawSegment`: the lenient reading of one segment. -/
def classifyRawSegment (raw : JsString) : PathSegment :=
  match indexDigits raw with
  | some digits => .index (digitsValue digits)
  | none =>
    match matchParts raw with
    | some (key, value) => .match key value
    | none => .key raw

/-- `classifyStrictRawSegment`: a bracket that is neither an index nor a match
is an error, and so is an index beyond the safe integers. -/
def classifyStrictRawSegment (raw : JsString) (offset : ℕ) :
    Except PathSyntaxError PathSegment :=
  if raw.head? = some (unit '[') then
    match indexDigits raw with
    | some digits =>
      if 2 ^ 53 ≤ digitsValue digits then
        .error ⟨"INDEX_OUT_OF_RANGE", js "Array index \"" ++ digits ++ js "\" at offset " ++
          natToString offset ++ js " exceeds the safe integer range", offset⟩
      else .ok (.index (digitsValue digits))
    | none =>
      match matchParts raw with
      | some (key, value) => .ok (.match key value)
      | none =>
        .error ⟨if unit '=' ∈ raw then "INVALID_MATCH_SYNTAX" else "INVALID_INDEX_SYNTAX",
          js "Malformed bracket segment \"" ++ raw ++ js "\" at offset " ++ natToString offset,
          offset⟩
  else .ok (.key raw)

/-! ## The strict parser -/

/-- The quoted segment that starts at `start`, its opening quote already read:
the key and the text after the closing quote. The offset of the rest of the
text is `total` less its length. -/
def readQuoted (total start : ℕ) : JsString → Except PathSyntaxError (JsString × JsString)
  | [] => .error ⟨"UNCLOSED_QUOTE",
      js "Unclosed quoted segment starting at offset " ++ natToString start, start⟩
  | u :: rest =>
    if u = unit '\\' then
      match rest with
      | [] => .error ⟨"INVALID_ESCAPE",
          js "Trailing backslash inside quoted segment starting at offset " ++ natToString start,
          total - 1⟩
      | next :: rest' =>
        if next = unit '"' ∨ next = unit '\\' then
          (readQuoted total start rest').map fun r => (next :: r.1, r.2)
        else
          .error ⟨"INVALID_ESCAPE", js "Invalid escape sequence \"\\" ++ next ::
            js "\" inside quoted segment starting at offset " ++ natToString start ++
            js "; only \\\" and \\\\ are allowed", total - (rest.length + 1)⟩
    else if u = unit '"' then .ok ([], rest)
    else (readQuoted total start rest).map fun r => (u :: r.1, r.2)

/-- One segment: a quoted one up to its closing quote, else the text before the
next slash. -/
def readSegment (total : ℕ) (text : JsString) :
    Except PathSyntaxError (PathSegment × JsString) :=
  match text with
  | [] => .ok (.key [], [])
  | u :: rest =>
    if u = unit '"' then (readQuoted total (total - text.length) rest).map fun r => (.key r.1, r.2)
    else
      (classifyStrictRawSegment (text.takeWhile (· ≠ unit '/')) (total - text.length)).map
        fun segment => (segment, text.dropWhile (· ≠ unit '/'))

/-- A segment with the text between its closing quote and the next slash. -/
def PathSegment.extend : PathSegment → JsString → PathSegment
  | segment, [] => segment
  | .key value, trailing => .key (value ++ trailing)
  | _, trailing => .key trailing

/-- The segments from here on, with `fuel` segments still allowed. At the end of
the text stands an empty key, after a slash and after text that trails a quote. -/
def parseSegments (total : ℕ) : ℕ → JsString → Except PathSyntaxError (List PathSegment)
  | 0, _ => .ok []
  | _ + 1, [] => .ok [.key []]
  | fuel + 1, text => do
    let (segment, after) ← readSegment total text
    if after = [] then return [segment]
    let (trailing, rest) := cut (unit '/') after
    let segments ← parseSegments total fuel rest
    return segment.extend trailing :: segments

/-- `tryParsePath`. -/
def tryParsePath (path : JsString) : Except PathSyntaxError (List PathSegment) :=
  if path = [] then .ok [] else parseSegments path.length (path.length + 1) path

/-- `parsePath`: malformed text is split at every slash. -/
def parsePath (path : JsString) : List PathSegment :=
  match tryParsePath path with
  | .ok segments => segments
  | .error _ => (split (unit '/') path).map classifyRawSegment

/-- Reading a quoted segment leaves less text. -/
theorem readQuoted_length {total start : ℕ} {text : JsString} {r : JsString × JsString}
    (h : readQuoted total start text = .ok r) : r.2.length < text.length := by
  fun_induction readQuoted total start text generalizing r with
  | case1 => cases h
  | case2 => cases h
  | case3 next rest hnext ih =>
    obtain ⟨r', hr', rfl⟩ := map_eq_ok_iff.mp h
    have hlen := ih hr'
    simp only [List.length_cons]
    omega
  | case4 => cases h
  | case5 =>
    obtain rfl := Except.ok.inj h
    simp
  | case6 u rest hslash hquote ih =>
    obtain ⟨r', hr', rfl⟩ := map_eq_ok_iff.mp h
    have hlen := ih hr'
    simp only [List.length_cons]
    omega

/-- Reading a segment leaves no more text. -/
theorem readSegment_length {total : ℕ} {text : JsString} {r : PathSegment × JsString}
    (h : readSegment total text = .ok r) : r.2.length ≤ text.length := by
  unfold readSegment at h
  split at h
  · obtain rfl := Except.ok.inj h
    simp
  · next u rest =>
    split_ifs at h with hquote
    · obtain ⟨r', hr', rfl⟩ := map_eq_ok_iff.mp h
      have hlen := readQuoted_length hr'
      simp only [List.length_cons]
      omega
    · obtain ⟨segment, -, rfl⟩ := map_eq_ok_iff.mp h
      exact (List.dropWhile_suffix _).length_le

/-- As much fuel as the text has characters, and one more, is enough. -/
theorem parseSegments_succ {total fuel : ℕ} {text : JsString} (h : text.length < fuel) :
    parseSegments total (fuel + 1) text = parseSegments total fuel text := by
  induction fuel generalizing text with
  | zero => omega
  | succ fuel ih =>
    cases text with
    | nil => rfl
    | cons u rest =>
      simp only [parseSegments]
      cases hread : readSegment total (u :: rest) with
      | error e => rfl
      | ok r =>
        obtain ⟨segment, after⟩ := r
        have hafter : after.length ≤ (u :: rest).length := readSegment_length hread
        cases after with
        | nil => rfl
        | cons v after =>
          have hcut : (cut (unit '/') (v :: after)).2.length < fuel := by
            have hdrop := (List.dropWhile_suffix (· ≠ unit '/') (l := v :: after)).length_le
            simp only [cut, List.length_drop, List.length_cons] at h hafter hdrop ⊢
            omega
          change (parseSegments total (fuel + 1) (cut (unit '/') (v :: after)).2 >>= _) = _
          rw [ih hcut]
          rfl

end T3x.Yops
