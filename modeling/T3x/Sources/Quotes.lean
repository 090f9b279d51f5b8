import T3x.Js.Search
import T3x.Js.Shape

/-!
# Quotes and the texts they are taken out of

A quote that a model rendered is looked for in a turn as it is, without its
markdown marks and with other quotation marks. Where that fails, the paired
marks are taken out of the turn instead, and a hit is carried back to the turn
through the positions that the characters came out of.
-/

namespace T3x.Sources

open Js

/-! ## Candidates -/

/-- The code unit of `*`. -/
def star : UInt16 := unit '*'

/-- A match of `\*{1,2}([^*]+)\*{1,2}` at the front: the group and what follows the match. A
run of more than two stars cannot open a match, since a star is no text. -/
def starPair (s : JsString) : Option (JsString × JsString) :=
  let opening := s.takeWhile (· = star)
  let inner := (s.drop opening.length).takeWhile (· ≠ star)
  let rest := s.drop (opening.length + inner.length)
  let closing := (rest.take 2).takeWhile (· = star)
  if opening ≠ [] ∧ opening.length ≤ 2 ∧ inner ≠ [] ∧ closing ≠ [] then
    some (inner, rest.drop closing.length)
  else none

/-- The replacement of every match by its group, with at most so many steps. -/
def replaceStars : ℕ → JsString → JsString
  | 0, s => s
  | fuel + 1, s =>
    match starPair s, s with
    | some (inner, rest), _ => inner ++ replaceStars fuel rest
    | none, [] => []
    | none, u :: rest => u :: replaceStars fuel rest

/-- `value.replace(/^#+\s*/, '')`. -/
def replaceHeading (value : JsString) : JsString :=
  if value.head? = some (unit '#') then (value.dropWhile (· = unit '#')).dropWhile isSpace
  else value

/-- The straight quotation mark. -/
def quotation : UInt16 := 0x22

/-- The straight apostrophe. -/
def apostrophe : UInt16 := 0x27

/-- `value.replace(/[“”]/g, '"').replace(/[‘’]/g, "'")`. -/
def straightMarks (value : JsString) : JsString :=
  value.map fun u =>
    if u = 0x201C ∨ u = 0x201D then quotation
    else if u = 0x2018 ∨ u = 0x2019 then apostrophe else u

/-- `value.replace(/mark/g, other)` for single marks. -/
def replaceMark (mark other : UInt16) (value : JsString) : JsString :=
  value.map fun u => if u = mark then other else u

/-- `push`: a trimmed text is a further candidate, unless it is blank or one already. -/
def pushCandidate (candidates : List JsString) (value : JsString) : List JsString :=
  let trimmed := trim value
  if trimmed = [] ∨ trimmed ∈ candidates then candidates else candidates ++ [trimmed]

/-- `generateQuoteCandidates`. -/
def generateQuoteCandidates (quote : JsString) : List JsString :=
  [replaceStars quote.length quote, replaceHeading quote, straightMarks quote,
    replaceMark apostrophe 0x2019 quote, replaceMark quotation 0x201C quote,
    replaceMark quotation 0x201D quote].foldl pushCandidate [quote]

/-- `tryExactQuote`. -/
def tryExactQuote (content candidate : JsString) : Option JsString :=
  let trimmed := trim candidate
  if trimmed ≠ [] ∧ includes content trimmed = true then some trimmed else none

/-! ## The projection -/

/-- `PROJECTION_MARKERS`. -/
def projectionMarkers : List JsString := [js "**", js "*", js "`"]

/-- One character of the projection with its entries of the maps; nothing stands for `-1`. -/
structure ProjectedChar where
  /-- The character. -/
  char : UInt16
  /-- `rawIndexAt`: the position in the raw text. -/
  rawIndex : ℕ
  /-- `spanIdAt`: the pair of markers that the character stands in. -/
  spanId : Option ℕ
  /-- `openMarkerAt`: where the opening marker stands, for the first character in a pair. -/
  openMarker : Option ℕ
  /-- `closeMarkerEndAt`: where the closing marker ends, for the last character in a pair. -/
  closeMarkerEnd : Option ℕ

/-- Where a pair with text in it closes that the marker opens at a position. -/
def closeIndex (raw : JsString) (i : ℕ) (marker : JsString) : Option ℕ :=
  if marker.isPrefixOf (raw.drop i) then
    (indexOf raw marker (i + marker.length)).filter fun closeIdx =>
      decide (i + marker.length < closeIdx)
  else none

/-- The first marker that opens a pair at a position, and where the pair closes. -/
def matchedPair (raw : JsString) (i : ℕ) : Option (JsString × ℕ) :=
  projectionMarkers.findSome? fun marker => (closeIndex raw i marker).map (marker, ·)

/-- The character at position `k` in a pair of markers. -/
def innerChar (raw marker : JsString) (i closeIdx spanId k : ℕ) : ProjectedChar where
  char := raw.getD k 0
  rawIndex := k
  spanId := some spanId
  openMarker := if k = i + marker.length then some i else none
  closeMarkerEnd := if k = closeIdx - 1 then some (closeIdx + marker.length) else none

/-- The character at a position outside any pair. -/
def plainChar (raw : JsString) (i : ℕ) : ProjectedChar where
  char := raw.getD i 0
  rawIndex := i
  spanId := none
  openMarker := none
  closeMarkerEnd := none

/-- A marker that matches has text after it and closes later. -/
theorem closeIndex_spec {raw marker : JsString} {i closeIdx : ℕ}
    (h : closeIndex raw i marker = some closeIdx) (hne : marker ≠ []) :
    i + marker.length < closeIdx ∧ closeIdx + marker.length ≤ raw.length := by
  unfold closeIndex at h
  split at h
  · obtain ⟨hindex, hlt⟩ := Option.filter_eq_some_iff.mp h
    exact ⟨of_decide_eq_true hlt, indexOf_add_length_le hindex hne⟩
  · cases h

/-- A matched pair has text in it and lies within the raw text. -/
theorem matchedPair_spec {raw marker : JsString} {i closeIdx : ℕ}
    (h : matchedPair raw i = some (marker, closeIdx)) :
    i + marker.length < closeIdx ∧ closeIdx + marker.length ≤ raw.length := by
  obtain ⟨tried, htried, hmatch⟩ := List.exists_of_findSome?_eq_some h
  obtain ⟨close, hclose, hpair⟩ := Option.map_eq_some_iff.mp hmatch
  cases hpair
  refine closeIndex_spec hclose ?_
  rintro rfl
  exact absurd htried (by decide)

/-- The scan of the raw text with the identity of the next pair. -/
def projectFrom (raw : JsString) (i nextSpanId : ℕ) : List ProjectedChar :=
  if i < raw.length then
    match h : matchedPair raw i with
    | some (marker, closeIdx) =>
      (List.range' (i + marker.length) (closeIdx - (i + marker.length))).map
          (innerChar raw marker i closeIdx nextSpanId) ++
        projectFrom raw (closeIdx + marker.length) (nextSpanId + 1)
    | none => plainChar raw i :: projectFrom raw (i + 1) nextSpanId
  else []
termination_by raw.length - i
decreasing_by
  · have := matchedPair_spec h
    omega
  · omega

/-- `projectMarkdownToRaw`. -/
def projectMarkdownToRaw (raw : JsString) : List ProjectedChar := projectFrom raw 0 0

/-- `stripped`: the characters of a projection. -/
def stripped (projection : List ProjectedChar) : JsString := projection.map (·.char)

/-- Where the raw text of a match begins and ends. A match that leaves the pair at its first
character takes the opening marker in, and likewise at its end. -/
def rawSpan (first last : ProjectedChar) : ℕ × ℕ :=
  if last.spanId ≠ first.spanId then
    (first.openMarker.getD first.rawIndex, last.closeMarkerEnd.getD (last.rawIndex + 1))
  else (first.rawIndex, last.rawIndex + 1)

/-- `repairFromMarkdownProjection`. -/
def repairFromMarkdownProjection (rawContent quote : JsString) : Option JsString :=
  if quote = [] ∨ includes rawContent quote = true then none
  else do
    let projection := projectMarkdownToRaw rawContent
    let hit ← indexOf (stripped projection) quote 0
    let first ← projection[hit]?
    let last ← projection[hit + quote.length - 1]?
    let repaired := slice rawContent (rawSpan first last).1 (rawSpan first last).2
    if includes rawContent repaired then some repaired else none

end T3x.Sources
