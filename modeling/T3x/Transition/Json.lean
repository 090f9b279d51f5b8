import T3x.Js.Grammar
import T3x.Transition.Canonical

/-!
# The strict parser of protocol texts

The hand-written parser of protocol JSON. Its position is what remains of the
source, and errors count the offset from it and the length of the source. It
keeps the evidence that the parser of the language drops: names that occur
twice, lone surrogates and numbers that overflow are errors.
-/

namespace T3x.Transition

open Js

/-- What a parser reads from the front of a text, and the text behind it. -/
abbrev Parsed (T : Type) := Except ProtocolError (T × JsString)

/-- `this.fail(message, path)`, where `rest` remains of a source of `size` code units. -/
def fail (size : ℕ) (message path rest : JsString) : ProtocolError :=
  ⟨.schemaInvalid, message ++ js " at input offset " ++ natToString (size - rest.length),
    some path⟩

/-- `assertDecodedUnicode(value, path)`, which is written as its namesake of the
canonical text. -/
def assertDecodedUnicode (value path : JsString) : Except ProtocolError Unit :=
  assertWellFormedUnicode value path

/-- `this.skipWhitespace()`. -/
def skipWhitespace (text : JsString) : JsString := text.dropWhile isBlank

/-- `this.consume(character)`: the text behind the character, if the text begins with it. -/
def consume (character : UInt16) : JsString → Option JsString
  | [] => none
  | u :: rest => if u = character then some rest else none

section

variable (size : ℕ)

/-- The loop of `parseString`: the text up to the closing quote and the text behind it. -/
def scanString (path : JsString) : JsString → Parsed JsString
  | [] => .error (fail size (js "Unterminated JSON string") path [])
  | code :: text =>
    if code = unit '"' then .ok ([], text)
    else if code < 32 then
      .error (fail size (js "Unescaped control character in JSON string") path (code :: text))
    else if code = unit '\\' then
      match text with
      | [] => .error (fail size (js "Invalid JSON escape") path [])
      | escapeCode :: rest =>
        if escapeCode = unit 'u' then
          match rest with
          | h₃ :: h₂ :: h₁ :: h₀ :: rest' =>
            if [h₃, h₂, h₁, h₀].all isHexDigit then
              (scanString path rest').map fun r =>
                (code :: escapeCode :: h₃ :: h₂ :: h₁ :: h₀ :: r.1, r.2)
            else .error (fail size (js "Invalid Unicode escape") path (escapeCode :: rest))
          | _ => .error (fail size (js "Invalid Unicode escape") path (escapeCode :: rest))
        else if escapeCode ∈ js "\"\\/bfnrt" then
          (scanString path rest).map fun r => (code :: escapeCode :: r.1, r.2)
        else .error (fail size (js "Invalid JSON escape") path (escapeCode :: rest))
    else (scanString path text).map fun r => (code :: r.1, r.2)

/-- `this.parseString(path)`. -/
def parseString (path text : JsString) : Parsed JsString :=
  match scanString size path (text.drop 1) with
  | .error e => .error e
  | .ok (body, rest) =>
    match unescape body with
    | none => .error (fail size (js "Invalid JSON string") path rest)
    | some value =>
      match assertDecodedUnicode value path with
      | .error e => .error e
      | .ok _ => .ok (value, rest)

/-- The match of `0|[1-9][0-9]*`. -/
def matchWhole : JsString → Option (JsString × JsString)
  | [] => none
  | u :: s =>
    if u = unit '0' then some ([u], s)
    else if isDigit u then some (u :: s.takeWhile isDigit, s.dropWhile isDigit)
    else none

/-- The match of `[0-9]+`. -/
def matchDigits (s : JsString) : Option (JsString × JsString) :=
  match s.takeWhile isDigit with
  | [] => none
  | digits => some (digits, s.dropWhile isDigit)

/-- The match of `(?:\.[0-9]+)?`. -/
def matchFraction (s : JsString) : JsString × JsString :=
  match s with
  | [] => ([], [])
  | u :: rest =>
    if u = unit '.' then
      match matchDigits rest with
      | some (digits, rest) => (u :: digits, rest)
      | none => ([], s)
    else ([], s)

/-- The match of `(?:[eE][+-]?[0-9]+)?`. -/
def matchExponent (s : JsString) : JsString × JsString :=
  match s with
  | [] => ([], [])
  | [_] => ([], s)
  | u :: v :: rest =>
    if isExponentMark u then
      if isSign v then
        match matchDigits rest with
        | some (digits, rest) => (u :: v :: digits, rest)
        | none => ([], s)
      else
        match matchDigits (v :: rest) with
        | some (digits, rest) => (u :: digits, rest)
        | none => ([], s)
    else ([], s)

/-- The match of a number without its sign. -/
def matchUnsigned (s : JsString) : Option (JsString × JsString) :=
  match matchWhole s with
  | none => none
  | some (whole, rest) =>
    let (fraction, rest) := matchFraction rest
    let (exponent, rest) := matchExponent rest
    some (whole ++ fraction ++ exponent, rest)

/-- `/^-?(?:0|[1-9][0-9]*)(?:\.[0-9]+)?(?:[eE][+-]?[0-9]+)?/.exec(s)`: the match and
the text behind it. -/
def matchNumber : JsString → Option (JsString × JsString)
  | [] => none
  | u :: s =>
    if u = unit '-' then (matchUnsigned s).map fun r => (u :: r.1, r.2) else matchUnsigned (u :: s)

/-- `this.parseNumber(path)`. -/
def parseNumber (path text : JsString) : Parsed JsNumber :=
  match matchNumber text with
  | none => .error (fail size (js "Invalid JSON number") path text)
  | some (token, rest) =>
    match numberOf token with
    | none => .error (nonCanonicalValue "Numbers must be finite I-JSON values" path)
    | some value => .ok (value, rest)

/-- `this.parseLiteral(literal, value, path)`. -/
def parseLiteral (literal : JsString) (value : JsValue) (path text : JsString) : Parsed JsValue :=
  if text.take literal.length ≠ literal then
    .error (fail size (js "Invalid JSON literal; expected " ++ literal) path text)
  else .ok (value, text.drop literal.length)

mutual

/-- `this.parseValue(path)`. Every call reads a shorter text than the one two calls
before, so twice the length of the text is `fuel` enough. -/
def parseValue : (fuel : ℕ) → (path text : JsString) → Parsed JsValue
  | 0, path, text => .error (fail size (js "Expected a JSON value") path text)
  | fuel + 1, path, text =>
    match text with
    | [] => .error (fail size (js "Expected a JSON value") path text)
    | character :: rest =>
      if character = unit '"' then (parseString size path text).map fun r => (.str r.1, r.2)
      else if character = unit '\x7b' then
        -- `parseObject`
        match consume (unit '\x7d') (skipWhitespace rest) with
        | some rest => .ok (.obj [], rest)
        | none => parseMembers fuel path [] (skipWhitespace rest)
      else if character = unit '[' then
        -- `parseArray`
        match consume (unit ']') (skipWhitespace rest) with
        | some rest => .ok (.arr [], rest)
        | none => parseItems fuel path [] (skipWhitespace rest)
      else if character = unit 't' then parseLiteral size (js "true") (.bool true) path text
      else if character = unit 'f' then parseLiteral size (js "false") (.bool false) path text
      else if character = unit 'n' then parseLiteral size (js "null") .null path text
      else if character = unit '-' ∨ isDigit character = true then
        (parseNumber size path text).map fun r => (.num r.1, r.2)
      else .error (fail size (js "Expected a JSON value") path text)

/-- The loop of `parseObject`, with the members read so far. -/
def parseMembers : (fuel : ℕ) → (path : JsString) → (result : Record JsValue) →
    (text : JsString) → Parsed JsValue
  | 0, path, _, text => .error (fail size (js "Expected a JSON value") path text)
  | fuel + 1, path, result, text =>
    if text.head? ≠ some (unit '"') then
      .error (fail size (js "Expected an object key") path text)
    else
      match parseString size (path ++ js " key") text with
      | .error e => .error e
      | .ok (key, rest) =>
        if Record.has result key then
          .error (fail size (js "Duplicate object key " ++ quote key) path rest)
        else
          match consume (unit ':') (skipWhitespace rest) with
          | none => .error (fail size (js "Expected a colon after an object key") path
              (skipWhitespace rest))
          | some rest =>
            match parseValue fuel (path ++ js "." ++ key) (skipWhitespace rest) with
            | .error e => .error e
            | .ok (value, rest) =>
              match consume (unit '\x7d') (skipWhitespace rest) with
              | some rest => .ok (.obj (Record.setOwn result key value), rest)
              | none =>
                match consume (unit ',') (skipWhitespace rest) with
                | none => .error (fail size (js "Expected a comma between object entries") path
                    (skipWhitespace rest))
                | some rest =>
                  parseMembers fuel path (Record.setOwn result key value) (skipWhitespace rest)

/-- The loop of `parseArray`, with the items read so far. -/
def parseItems : (fuel : ℕ) → (path : JsString) → (result : List JsValue) →
    (text : JsString) → Parsed JsValue
  | 0, path, _, text => .error (fail size (js "Expected a JSON value") path text)
  | fuel + 1, path, result, text =>
    match parseValue fuel (path ++ js "[" ++ natToString result.length ++ js "]") text with
    | .error e => .error e
    | .ok (value, rest) =>
      match consume (unit ']') (skipWhitespace rest) with
      | some rest => .ok (.arr (result ++ [value]), rest)
      | none =>
        match consume (unit ',') (skipWhitespace rest) with
        | none => .error (fail size (js "Expected a comma between array entries") path
            (skipWhitespace rest))
        | some rest => parseItems fuel path (result ++ [value]) (skipWhitespace rest)

end

end

/-- `parseProtocolJson(source)` for a string: `new StrictJsonParser(source).parse()`. -/
def parseProtocolJson (source : JsString) : Except ProtocolError JsValue :=
  match parseValue source.length (2 * source.length) (js "$") (skipWhitespace source) with
  | .error e => .error e
  | .ok (value, rest) =>
    if skipWhitespace rest ≠ [] then
      .error (fail source.length (js "Unexpected trailing input") (js "$") (skipWhitespace rest))
    else .ok value

end T3x.Transition
