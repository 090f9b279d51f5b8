import T3x.Js.Search
import T3x.Js.Shape

/-!
# Splitting markdown into paragraphs

The lines of a text are consumed in passes. A pass looks at the class of the
first line and takes the block that it begins: a fenced code block, a heading, a
quotation, a table, an item of a list, or the lines of a paragraph. A line that
begins with `#` and is no heading begins no block, and stops every paragraph.
-/

namespace T3x.Documents

open Js

/-! ## Classes of lines -/

/-- `ParsedParagraph['type']`. -/
inductive ParagraphType where
  | heading
  | paragraph
  | listItem
  | code
  | table
  | blockquote
  deriving DecidableEq, Repr

/-- `ParsedParagraph`. -/
structure ParsedParagraph where
  /-- The text. -/
  text : JsString
  /-- The kind of paragraph. -/
  type : ParagraphType
  /-- The level of a heading. -/
  level : Option ℕ
  /-- The place among the paragraphs. -/
  index : ℕ
  deriving DecidableEq

/-- Whether a trimmed line begins a fenced code block. -/
def isFence (trimmed : JsString) : Bool :=
  startsWith trimmed (js "```") || startsWith trimmed (js "~~~")

/-- Whether a code unit ends a line in a regular expression. -/
def isLineTerminator (u : UInt16) : Bool := u = 10 || u = 13 || u = 0x2028 || u = 0x2029

/-- `trimmed.match(/^(#{1,6})\s+(.+)/)`: the number of the first group and the text of the second.
A trimmed text does not end with a space, so a text follows the spaces. -/
def headingMatch (trimmed : JsString) : Option (ℕ × JsString) :=
  let hashes := (trimmed.takeWhile (· = unit '#')).length
  let rest := trimmed.dropWhile (· = unit '#')
  let text := rest.dropWhile isSpace
  if 1 ≤ hashes ∧ hashes ≤ 6 ∧ rest ≠ text ∧ text ≠ [] then
    some (hashes, text.takeWhile fun u => !isLineTerminator u)
  else none

/-- Whether a trimmed line begins and ends like the row of a table. -/
def isTableRow (trimmed : JsString) : Bool :=
  startsWith trimmed (js "|") && endsWith trimmed (js "|")

/-- Whether a code unit is the mark of an unordered list. -/
def isListMark (u : UInt16) : Bool := u = unit '-' || u = unit '*' || u = unit '+'

/-- `/^[-*+]\s/.test(trimmed) || /^\d+\.\s/.test(trimmed)`. -/
def isListItem (trimmed : JsString) : Bool :=
  (match trimmed with
    | mark :: space :: _ => isListMark mark && isSpace space
    | _ => false) ||
  (!(trimmed.takeWhile isDigit).isEmpty &&
    match trimmed.dropWhile isDigit with
    | dot :: space :: _ => decide (dot = unit '.') && isSpace space
    | _ => false)

/-- `trimmed.replace(/^>\s?/, '')`. -/
def unquote : JsString → JsString
  | [] => []
  | mark :: rest =>
    if mark = unit '>' then
      match rest with
      | [] => []
      | u :: text => if isSpace u then text else u :: text
    else mark :: rest

/-! ## The loops over lines -/

/-- The loop over the lines of a fenced code block, with the line that closes it: the lines and
those after them. -/
def fenceLoop (fence : JsString) : List JsString → List JsString × List JsString
  | [] => ([], [])
  | line :: rest =>
    if startsWith (trim line) fence then ([line], rest)
    else
      let (codeLines, after) := fenceLoop fence rest
      (line :: codeLines, after)

/-- The condition of the loop over the lines of a quotation. -/
def continuesQuote (begun : Bool) (trimmed : JsString) : Bool :=
  startsWith trimmed (js ">") ||
    (!trimmed.isEmpty && begun && !startsWith trimmed (js "#"))

/-- The loop over the lines of a quotation, where some were taken before or none were. -/
def quoteLoop : Bool → List JsString → List JsString × List JsString
  | _, [] => ([], [])
  | begun, line :: rest =>
    if continuesQuote begun (trim line) then
      let (quoteLines, after) := quoteLoop true rest
      (unquote (trim line) :: quoteLines, after)
    else ([], line :: rest)

/-- The loop over the lines of a table. -/
def tableLoop : List JsString → List JsString × List JsString
  | [] => ([], [])
  | line :: rest =>
    if startsWith (trim line) (js "|") then
      let (tableLines, after) := tableLoop rest
      (trim line :: tableLines, after)
    else ([], line :: rest)

/-- The conditions that end the loop over the lines of a paragraph. -/
def endsParagraph (currentLine : JsString) : Bool :=
  currentLine.isEmpty || startsWith currentLine (js "#") || isFence currentLine ||
    startsWith currentLine (js ">") || isTableRow currentLine || isListItem currentLine

/-- The loop over the lines of a paragraph. -/
def paragraphLoop : List JsString → List JsString × List JsString
  | [] => ([], [])
  | line :: rest =>
    if endsParagraph (trim line) then ([], line :: rest)
    else
      let (paraLines, after) := paragraphLoop rest
      (trim line :: paraLines, after)

/-- A pass of the outer loop, from a line on: the paragraph that is pushed, if any, and the lines
that are left. -/
def pass (index : ℕ) (line : JsString) (rest : List JsString) :
    Option ParsedParagraph × List JsString :=
  let trimmed := trim line
  if trimmed = [] then (none, rest)
  else if isFence trimmed then
    let (codeLines, after) := fenceLoop (trimmed.take 3) rest
    (some ⟨join (unit '\n') (line :: codeLines), .code, none, index⟩, after)
  else
    match headingMatch trimmed with
    | some (level, text) => (some ⟨trim text, .heading, some level, index⟩, rest)
    | none =>
      if startsWith trimmed (js ">") then
        let (quoteLines, after) := quoteLoop false (line :: rest)
        (some ⟨join (unit '\n') quoteLines, .blockquote, none, index⟩, after)
      else if isTableRow trimmed then
        let (tableLines, after) := tableLoop (line :: rest)
        (some ⟨join (unit '\n') tableLines, .table, none, index⟩, after)
      else if isListItem trimmed then (some ⟨trimmed, .listItem, none, index⟩, rest)
      else
        let (paraLines, after) := paragraphLoop (line :: rest)
        if paraLines = [] then (none, after)
        else (some ⟨join (unit ' ') paraLines, .paragraph, none, index⟩, after)

/-- The outer loop, for at most a number of passes, with the paragraphs that are pushed before. -/
def splitLoop : ℕ → List JsString → List ParsedParagraph → Option (List ParsedParagraph)
  | _, [], paragraphs => some paragraphs
  | 0, _ :: _, _ => none
  | passes + 1, line :: rest, paragraphs =>
    let (paragraph, after) := pass paragraphs.length line rest
    splitLoop passes after (paragraphs ++ paragraph.toList)

/-- `splitIntoParagraphs(markdown)`, if it returns within a number of passes. -/
def splitIntoParagraphs (passes : ℕ) (markdown : JsString) : Option (List ParsedParagraph) :=
  splitLoop passes (split (unit '\n') markdown) []

end T3x.Documents
