import T3x.Transition.Scan

/-!
# Parsing JSON texts

`JSON.parse`, with numbers left as they are written and the members of an object
in the order of the text. It is the parser of the language and not the strict one
of the protocol: a name may occur twice, and the last member counts.
-/

namespace T3x.Storage

open Js

/-- A string behind its opening quote, and the text behind it. -/
def readString : JsString → Option (JsString × JsString)
  | [] => none
  | c :: text =>
    if c = unit '"' then some ([], text)
    else if c < 32 then none
    else if c = unit '\\' then
      match text with
      | [] => none
      | e :: rest =>
        if e = unit 'u' then
          match rest with
          | h₃ :: h₂ :: h₁ :: h₀ :: rest' =>
            if [h₃, h₂, h₁, h₀].all isHexDigit then
              (readString rest').map fun r => (hexUnit h₃ h₂ h₁ h₀ :: r.1, r.2)
            else none
          | _ => none
        else
          match letterEscapes.find? (fun x => x.2 == e) with
          | some x => (readString rest).map fun r => (x.1 :: r.1, r.2)
          | none => none
    else (readString text).map fun r => (c :: r.1, r.2)

/-- A word at the front of a text, and the text behind it. -/
def readWord (word : JsString) (tree : JsonTree) (text : JsString) : Option (JsonTree × JsString) :=
  if text.take word.length = word then some (tree, text.drop word.length) else none

mutual

/-- A value at the front of a text, and the text behind it. Every call reads a shorter text than
the one two calls before. -/
def readValue : ℕ → JsString → Option (JsonTree × JsString)
  | 0, _ => none
  | fuel + 1, text =>
    match text with
    | [] => none
    | u :: rest =>
      if u = unit '"' then (readString rest).map fun r => (.str r.1, r.2)
      else if u = unit '\x7b' then
        match Transition.consume (unit '\x7d') (Transition.skipWhitespace rest) with
        | some rest => some (.obj [], rest)
        | none =>
          (readMembers fuel (Transition.skipWhitespace rest)).map fun r => (.obj r.1, r.2)
      else if u = unit '[' then
        match Transition.consume (unit ']') (Transition.skipWhitespace rest) with
        | some rest => some (.arr [], rest)
        | none => (readItems fuel (Transition.skipWhitespace rest)).map fun r => (.arr r.1, r.2)
      else if u = unit 't' then readWord (js "true") (.bool true) text
      else if u = unit 'f' then readWord (js "false") (.bool false) text
      else if u = unit 'n' then readWord (js "null") .null text
      else (Transition.matchNumber text).map fun r => (.num r.1, r.2)

/-- The members of an object up to its brace, and the text behind it. -/
def readMembers : ℕ → JsString → Option (List (JsString × JsonTree) × JsString)
  | 0, _ => none
  | fuel + 1, text =>
    match (Transition.consume (unit '"') text).bind readString with
    | none => none
    | some (key, rest) =>
      match Transition.consume (unit ':') (Transition.skipWhitespace rest) with
      | none => none
      | some rest =>
        match readValue fuel (Transition.skipWhitespace rest) with
        | none => none
        | some (value, rest) =>
          match Transition.consume (unit '\x7d') (Transition.skipWhitespace rest) with
          | some rest => some ([(key, value)], rest)
          | none =>
            match Transition.consume (unit ',') (Transition.skipWhitespace rest) with
            | none => none
            | some rest =>
              (readMembers fuel (Transition.skipWhitespace rest)).map fun r =>
                ((key, value) :: r.1, r.2)

/-- The items of an array up to its bracket, and the text behind it. -/
def readItems : ℕ → JsString → Option (List JsonTree × JsString)
  | 0, _ => none
  | fuel + 1, text =>
    match readValue fuel text with
    | none => none
    | some (value, rest) =>
      match Transition.consume (unit ']') (Transition.skipWhitespace rest) with
      | some rest => some ([value], rest)
      | none =>
        match Transition.consume (unit ',') (Transition.skipWhitespace rest) with
        | none => none
        | some rest =>
          (readItems fuel (Transition.skipWhitespace rest)).map fun r => (value :: r.1, r.2)

end

/-- `JSON.parse(text)`, without a value where it throws. -/
def jsonParse (text : JsString) : Option JsonTree :=
  match readValue (2 * text.length) (Transition.skipWhitespace text) with
  | none => none
  | some (tree, rest) => if Transition.skipWhitespace rest = [] then some tree else none

/-- `value[key]` for an object: the last member with the name. -/
def treeMember (tree : JsonTree) (key : JsString) : Option JsonTree :=
  match tree with
  | .obj members => (members.reverse.find? fun e => e.1 == key).map Prod.snd
  | _ => none

/-- `isRecord(value)`. -/
def isRecordTree : JsonTree → Bool
  | .obj _ => true
  | _ => false

/-- A string is read from its spelling. -/
theorem readString_of_isStringBody {body s : JsString} (h : IsStringBody body s) (rest : JsString) :
    readString (body ++ unit '"' :: rest) = some (s, rest) := by
  induction h with
  | nil =>
    rw [List.nil_append, readString.eq_def]
    simp only [if_true]
  | plain hcontrol hquote hslash _ ih =>
    rw [List.cons_append, readString.eq_def]
    simp only [if_neg hquote, if_neg (UInt16.not_lt.mpr hcontrol), if_neg hslash, ih,
      Option.map_some]
  | letter he _ ih =>
    obtain ⟨hne, hfind⟩ := find_letterEscapes he
    have hquote : unit '\\' ≠ unit '"' := by decide
    have hcontrol : ¬ unit '\\' < 32 := by decide
    rw [List.cons_append, List.cons_append, readString.eq_def]
    simp only [if_neg hquote, if_neg hcontrol, if_true, if_neg hne, hfind, ih, Option.map_some]
  | hex hhex _ ih =>
    have hquote : unit '\\' ≠ unit '"' := by decide
    have hcontrol : ¬ unit '\\' < 32 := by decide
    simp only [List.cons_append]
    rw [readString.eq_def]
    simp only [if_neg hquote, if_neg hcontrol, if_true, hhex, ih, Option.map_some]

/-- A printed string is read back. -/
theorem readString_quoteBody (s rest : JsString) :
    readString (quoteBody s ++ unit '"' :: rest) = some (s, rest) :=
  readString_of_isStringBody (isStringBody_quoteBody s) rest

/-- A printed string is read as a value. -/
theorem readValue_quote (fuel : ℕ) (s rest : JsString) :
    readValue (fuel + 1) (quote s ++ rest) = some (.str s, rest) := by
  unfold quote
  rw [List.cons_append, List.append_assoc, List.singleton_append, readValue]
  simp only [if_true, readString_quoteBody, Option.map_some]

/-- A quote is no white space. -/
theorem skipWhitespace_quote (s rest : JsString) :
    Transition.skipWhitespace (quote s ++ rest) = quote s ++ rest :=
  Transition.skipWhitespace_cons (by decide) _

/-- The name and the value of a member whose value is a string. -/
theorem readMembers_quote (fuel : ℕ) (key s rest : JsString) :
    readMembers (fuel + 2) (quote key ++ unit ':' :: (quote s ++ rest)) =
      match Transition.consume (unit '\x7d') (Transition.skipWhitespace rest) with
      | some rest => some ([(key, .str s)], rest)
      | none =>
        match Transition.consume (unit ',') (Transition.skipWhitespace rest) with
        | none => none
        | some rest =>
          (readMembers (fuel + 1) (Transition.skipWhitespace rest)).map fun r =>
            ((key, .str s) :: r.1, r.2) := by
  have hname : (Transition.consume (unit '"') (quote key ++ unit ':' :: (quote s ++ rest))).bind
      readString = some (key, unit ':' :: (quote s ++ rest)) := by
    unfold quote
    rw [List.cons_append, List.append_assoc, List.singleton_append]
    exact readString_quoteBody key _
  have hcolon : Transition.consume (unit ':')
      (Transition.skipWhitespace (unit ':' :: (quote s ++ rest))) = some (quote s ++ rest) := by
    rw [Transition.skipWhitespace_cons (by decide)]
    rfl
  rw [readMembers]
  simp only [hname, hcolon, skipWhitespace_quote, readValue_quote]

/-- An object of two strings is read back. -/
theorem jsonParse_two_strings (t k : JsString) :
    jsonParse (unit '\x7b' :: (quote (js "t") ++ unit ':' :: (quote t ++ unit ',' ::
        (quote (js "k") ++ unit ':' :: (quote k ++ [unit '\x7d']))))) =
      some (.obj [(js "t", .str t), (js "k", .str k)]) := by
  have hlast (fuel : ℕ) : readMembers (fuel + 2)
      (quote (js "k") ++ unit ':' :: (quote k ++ [unit '\x7d'])) =
        some ([(js "k", .str k)], []) := readMembers_quote fuel _ _ _
  have hfirst (fuel : ℕ) : readMembers (fuel + 3) (quote (js "t") ++ unit ':' :: (quote t ++
      unit ',' :: (quote (js "k") ++ unit ':' :: (quote k ++ [unit '\x7d'])))) =
        some ([(js "t", .str t), (js "k", .str k)], []) := by
    rw [readMembers_quote]
    have hcomma : Transition.skipWhitespace (unit ',' :: (quote (js "k") ++ unit ':' ::
        (quote k ++ [unit '\x7d']))) = unit ',' :: (quote (js "k") ++ unit ':' ::
        (quote k ++ [unit '\x7d'])) := Transition.skipWhitespace_cons (by decide) _
    simp only [hcomma, Transition.consume, if_neg (show unit ',' ≠ unit '\x7d' by decide), if_true,
      skipWhitespace_quote, hlast, Option.map_some]
  generalize hbody : quote (js "t") ++ unit ':' :: (quote t ++ unit ',' ::
    (quote (js "k") ++ unit ':' :: (quote k ++ [unit '\x7d']))) = body at hfirst ⊢
  have hlength : 4 ≤ body.length := by
    rw [← hbody]
    simp only [quote, List.length_append, List.length_cons]
    omega
  have hquote : Transition.skipWhitespace body = body := hbody ▸ skipWhitespace_quote _ _
  have hopen : Transition.consume (unit '\x7d') body = none := by
    rw [← hbody]
    rfl
  obtain ⟨fuel, hfuel⟩ : ∃ fuel, 2 * (unit '\x7b' :: body).length = fuel + 4 :=
    ⟨2 * (unit '\x7b' :: body).length - 4, by rw [List.length_cons]; omega⟩
  have hread : readValue (fuel + 4) (unit '\x7b' :: body) =
      some (.obj [(js "t", .str t), (js "k", .str k)], []) := by
    rw [readValue]
    simp only [if_neg (show unit '\x7b' ≠ unit '"' by decide), if_true, hquote, hopen, hfirst,
      Option.map_some]
  unfold jsonParse
  rw [hfuel, Transition.skipWhitespace_cons (by decide), hread]
  rfl

end T3x.Storage
