import T3x.Documents.Paragraphs

/-!
# Splitting terminates and loses nothing

Each pass that meets no stray line takes a blank line or the block of a
paragraph, so as many passes as there are lines suffice, and the paragraphs are
made of the blocks in order. A line that begins with `#` and is no heading is
taken in fenced code blocks only; a pass that begins at one takes nothing, and
the same pass comes again.
-/

namespace T3x.Documents

open Js

/-! ## Blocks -/

/-- The lines of a paragraph. -/
structure Block where
  /-- The kind of paragraph. -/
  type : ParagraphType
  /-- The lines that contribute, in order. -/
  lines : List JsString

/-- The text of the paragraph with the lines of a block, and the level of a heading. -/
def Block.content (block : Block) : JsString × Option ℕ :=
  match block.type with
  | .code => (join (unit '\n') block.lines, none)
  | .heading =>
    match block.lines.head?.bind fun line => headingMatch (trim line) with
    | none => ([], none)
    | some (level, text) => (trim text, some level)
  | .blockquote => (join (unit '\n') (block.lines.map fun line => unquote (trim line)), none)
  | .table => (join (unit '\n') (block.lines.map trim), none)
  | .listItem => (join (unit '\n') (block.lines.map trim), none)
  | .paragraph => (join (unit ' ') (block.lines.map trim), none)

/-- The paragraph with the lines of a block. -/
def Block.paragraph (block : Block) (index : ℕ) : ParsedParagraph :=
  ⟨block.content.1, block.type, block.content.2, index⟩

/-- A block has lines. A code block begins with a fence; no line of another block is blank. -/
structure Block.Valid (block : Block) : Prop where
  /-- Some line contributes. -/
  nonempty : block.lines ≠ []
  /-- A blank line contributes to fenced code blocks only. -/
  joined : (block.type = .code ∧ ∀ line ∈ block.lines.head?, isFence (trim line) = true) ∨
    ∀ line ∈ block.lines, trim line ≠ []

/-- The lines are those of the blocks in order, with blank lines between the blocks. -/
inductive Layout : List JsString → List Block → Prop
  | nil : Layout [] []
  | blank {line : JsString} {lines : List JsString} {blocks : List Block} (h : trim line = [])
    (hrest : Layout lines blocks) : Layout (line :: lines) blocks
  | block {block : Block} {lines : List JsString} {blocks : List Block} (h : block.Valid)
    (hrest : Layout lines blocks) : Layout (block.lines ++ lines) (block :: blocks)

/-! ## Stray lines -/

/-- Where a scan of the lines is. -/
inductive Place where
  /-- Between blocks, or in one that the next line may end. -/
  | text
  /-- In a quotation. -/
  | quote
  /-- In a fenced code block, with its fence. -/
  | code (fence : JsString)

/-- Whether no line is stray: no line outside fenced code blocks begins with `#` and is no
heading. -/
def noStray : Place → List JsString → Bool
  | _, [] => true
  | .code fence, line :: rest =>
    if startsWith (trim line) fence then noStray .text rest else noStray (.code fence) rest
  | .quote, line :: rest =>
    if continuesQuote true (trim line) then noStray .quote rest
    else if isFence (trim line) then noStray (.code ((trim line).take 3)) rest
    else if startsWith (trim line) (js "#") then
      (headingMatch (trim line)).isSome && noStray .text rest
    else noStray .text rest
  | .text, line :: rest =>
    if isFence (trim line) then noStray (.code ((trim line).take 3)) rest
    else if startsWith (trim line) (js "#") then
      (headingMatch (trim line)).isSome && noStray .text rest
    else if startsWith (trim line) (js ">") then noStray .quote rest
    else noStray .text rest

/-! ## What the loops take -/

/-- The lines of a fenced code block. -/
theorem fenceLoop_spec (fence : JsString) (lines : List JsString) :
    (fenceLoop fence lines).1 ++ (fenceLoop fence lines).2 = lines ∧
      noStray (.code fence) lines = noStray .text (fenceLoop fence lines).2 := by
  induction lines with
  | nil => exact ⟨rfl, rfl⟩
  | cons line lines ih =>
    rw [fenceLoop, noStray]
    split_ifs
    · exact ⟨rfl, rfl⟩
    · exact ⟨congrArg (line :: ·) ih.1, ih.2⟩

/-- A line that does not continue a quotation is scanned as between blocks. -/
theorem noStray_quote_of_not {line : JsString} {rest : List JsString}
    (h : continuesQuote true (trim line) = false) :
    noStray .quote (line :: rest) = noStray .text (line :: rest) := by
  have hquote : startsWith (trim line) (js ">") = false := by
    rw [continuesQuote, Bool.or_eq_false_iff] at h
    exact h.1
  rw [noStray, noStray, h, hquote]
  simp only [Bool.false_eq_true, if_false]

/-- The lines of a quotation, of which some were taken before. -/
theorem quoteLoop_spec (lines : List JsString) : ∃ taken,
    taken ++ (quoteLoop true lines).2 = lines ∧
      (quoteLoop true lines).1 = taken.map (fun line => unquote (trim line)) ∧
      (∀ line ∈ taken, trim line ≠ []) ∧
      noStray .quote lines = noStray .text (quoteLoop true lines).2 := by
  induction lines with
  | nil => exact ⟨[], rfl, rfl, fun _ h => absurd h List.not_mem_nil, rfl⟩
  | cons line lines ih =>
    rw [quoteLoop]
    split_ifs with hcontinues
    · obtain ⟨taken, htaken, htexts, hblank, hscan⟩ := ih
      refine ⟨line :: taken, congrArg (line :: ·) htaken, congrArg _ htexts, ?_, ?_⟩
      · refine List.forall_mem_cons.mpr ⟨fun hnil => ?_, hblank⟩
        rw [hnil] at hcontinues
        exact absurd hcontinues (by decide)
      · rw [noStray, if_pos hcontinues]
        exact hscan
    · exact ⟨[], rfl, rfl, fun _ h => absurd h List.not_mem_nil,
        noStray_quote_of_not (Bool.eq_false_iff.mpr hcontinues)⟩

/-- A text begins with the first code unit of what it starts with. -/
theorem head?_of_startsWith {s start : JsString} {u : UInt16} (h : startsWith s start = true)
    (hstart : start.head? = some u) : s.head? = some u := by
  obtain ⟨rest, rfl⟩ := startsWith_iff.mp h
  rw [List.head?_append, hstart]
  rfl

/-- A line that begins with neither a fence, a `#` nor a `>` is scanned alone. -/
theorem noStray_text_of_head? {line : JsString} {rest : List JsString} (h : ∀ u, (trim line).head? =
    some u → u ≠ unit '`' ∧ u ≠ unit '~' ∧ u ≠ unit '#' ∧ u ≠ unit '>') :
    noStray .text (line :: rest) = noStray .text rest := by
  have hnot : ∀ (start : JsString) (u : UInt16), start.head? = some u →
      (u = unit '`' ∨ u = unit '~' ∨ u = unit '#' ∨ u = unit '>') →
      startsWith (trim line) start = false := by
    intro start u hstart hu
    by_contra hline
    rw [Bool.not_eq_false] at hline
    have hhead := h u (head?_of_startsWith hline hstart)
    tauto
  have hfence : isFence (trim line) = false := by
    rw [isFence, hnot (js "```") (unit '`') (by decide) (by decide),
      hnot (js "~~~") (unit '~') (by decide) (by decide)]
    rfl
  have hhash := hnot (js "#") (unit '#') (by decide) (by decide)
  have hquote := hnot (js ">") (unit '>') (by decide) (by decide)
  rw [noStray, hfence, hhash, hquote]
  simp only [Bool.false_eq_true, if_false]

/-- The lines of a table. -/
theorem tableLoop_spec (lines : List JsString) : ∃ taken,
    taken ++ (tableLoop lines).2 = lines ∧ (tableLoop lines).1 = taken.map trim ∧
      (∀ line ∈ taken, trim line ≠ []) ∧
      noStray .text lines = noStray .text (tableLoop lines).2 := by
  induction lines with
  | nil => exact ⟨[], rfl, rfl, fun _ h => absurd h List.not_mem_nil, rfl⟩
  | cons line lines ih =>
    rw [tableLoop]
    split_ifs with hrow
    · obtain ⟨taken, htaken, htexts, hblank, hscan⟩ := ih
      have hhead := head?_of_startsWith hrow (show (js "|").head? = some (unit '|') by decide)
      refine ⟨line :: taken, congrArg (line :: ·) htaken, congrArg _ htexts, ?_, ?_⟩
      · refine List.forall_mem_cons.mpr ⟨fun hnil => ?_, hblank⟩
        rw [hnil] at hhead
        cases hhead
      · refine (noStray_text_of_head? fun u hu => ?_).trans hscan
        obtain rfl := Option.some.inj (hu.symm.trans hhead)
        decide
    · exact ⟨[], rfl, rfl, fun _ h => absurd h List.not_mem_nil, rfl⟩

/-- A line that does not end a paragraph is not blank, and is scanned alone. -/
theorem noStray_text_of_not_endsParagraph {line : JsString} (rest : List JsString)
    (h : endsParagraph (trim line) = false) :
    trim line ≠ [] ∧ noStray .text (line :: rest) = noStray .text rest := by
  simp only [endsParagraph, Bool.or_eq_false_iff] at h
  obtain ⟨⟨⟨⟨⟨hblank, hhash⟩, hfence⟩, hquote⟩, -⟩, -⟩ := h
  constructor
  · intro hnil
    rw [hnil] at hblank
    cases hblank
  · rw [noStray, hfence, hhash, hquote]
    simp only [Bool.false_eq_true, if_false]

/-- The lines of a paragraph. -/
theorem paragraphLoop_spec (lines : List JsString) : ∃ taken,
    taken ++ (paragraphLoop lines).2 = lines ∧ (paragraphLoop lines).1 = taken.map trim ∧
      (∀ line ∈ taken, trim line ≠ []) ∧
      noStray .text lines = noStray .text (paragraphLoop lines).2 := by
  induction lines with
  | nil => exact ⟨[], rfl, rfl, fun _ h => absurd h List.not_mem_nil, rfl⟩
  | cons line lines ih =>
    rw [paragraphLoop]
    split_ifs with hends
    · exact ⟨[], rfl, rfl, fun _ h => absurd h List.not_mem_nil, rfl⟩
    · obtain ⟨taken, htaken, htexts, hblank, hscan⟩ := ih
      obtain ⟨hline, hline'⟩ := noStray_text_of_not_endsParagraph lines
        (Bool.eq_false_iff.mpr hends)
      exact ⟨line :: taken, congrArg (line :: ·) htaken, congrArg _ htexts,
        List.forall_mem_cons.mpr ⟨hline, hblank⟩, hline'.trans hscan⟩

/-! ## What a pass takes -/

/-- A pass takes a blank line, or a block. -/
structure Takes (index : ℕ) (line : JsString) (rest taken : List JsString) : Prop where
  /-- It takes lines from the first on. -/
  lines : taken ++ (pass index line rest).2 = line :: rest
  /-- It takes at least one line. -/
  progress : taken ≠ []
  /-- No line that it takes is stray. -/
  scan : noStray .text (line :: rest) = noStray .text (pass index line rest).2
  /-- The paragraph is made of the lines, and there is none for a blank line. -/
  paragraph : ((pass index line rest).1 = none ∧ taken = [line] ∧ trim line = []) ∨
    ∃ block : Block, block.Valid ∧ block.lines = taken ∧
      (pass index line rest).1 = some (block.paragraph index)

/-- A line that begins with `#` and is no heading. -/
def IsStray (line : JsString) : Prop :=
  startsWith (trim line) (js "#") = true ∧ headingMatch (trim line) = none

/-- A list item does not begin with a fence, a `#` or a `>`. -/
theorem head?_of_isListItem {trimmed : JsString} (h : isListItem trimmed = true) (u : UInt16)
    (hu : trimmed.head? = some u) :
    u ≠ unit '`' ∧ u ≠ unit '~' ∧ u ≠ unit '#' ∧ u ≠ unit '>' := by
  have hmark : isListMark u = true ∨ isDigit u = true := by
    cases trimmed with
    | nil => cases hu
    | cons v text =>
      obtain rfl := Option.some.inj hu
      by_contra hnone
      obtain ⟨hmark, hdigit⟩ := not_or.mp hnone
      unfold isListItem at h
      rw [List.takeWhile_cons_of_neg hdigit] at h
      cases text <;> simp [hmark] at h
  have hcodes : ∀ u ∈ [unit '`', unit '~', unit '#', unit '>'],
      isListMark u = false ∧ isDigit u = false := forall_mem_of_all (by decide)
  have hnot : u ∉ [unit '`', unit '~', unit '#', unit '>'] := by
    intro hmem
    obtain ⟨hmark', hdigit'⟩ := hcodes u hmem
    rcases hmark with hmark | hmark
    · rw [hmark] at hmark'
      cases hmark'
    · rw [hmark] at hdigit'
      cases hdigit'
  simpa using hnot

/-- A heading begins with `#`. -/
theorem startsWith_of_headingMatch {trimmed : JsString}
    (h : (headingMatch trimmed).isSome = true) : startsWith trimmed (js "#") = true := by
  have hone : js "#" = [unit '#'] := by decide
  unfold headingMatch at h
  dsimp only at h
  split_ifs at h with hmatch
  swap
  · cases h
  cases trimmed with
  | nil => exact absurd hmatch.1 (by decide)
  | cons u text =>
    by_cases hu : u = unit '#'
    · rw [hone, hu]
      exact startsWith_iff.mpr ⟨text, rfl⟩
    · rw [List.takeWhile_cons_of_neg (by simpa using hu)] at hmatch
      exact absurd hmatch.1 (by decide)

section

variable {index : ℕ} {line : JsString} {rest : List JsString}

/-- A pass takes a blank line. -/
theorem takes_blank (hblank : trim line = []) : Takes index line rest [line] := by
  have hpass : pass index line rest = (none, rest) := by rw [pass, hblank]; rfl
  refine ⟨by rw [hpass]; rfl, List.cons_ne_nil _ _, ?_, .inl ⟨by rw [hpass], rfl, hblank⟩⟩
  rw [hpass]
  exact noStray_text_of_head? fun u hu => by rw [hblank] at hu; cases hu

/-- A pass that takes lines which are not blank for a paragraph that is made of them. -/
theorem takes_of_pass (type : ParagraphType) {taken after : List JsString}
    (hpass : pass index line rest =
      (some (Block.paragraph ⟨type, taken⟩ index), after))
    (hlines : taken ++ after = line :: rest) (hne : taken ≠ [])
    (hblank : ∀ line ∈ taken, trim line ≠ [])
    (hscan : noStray .text (line :: rest) = noStray .text after) :
    Takes index line rest taken := by
  refine ⟨by rw [hpass]; exact hlines, hne, by rw [hpass]; exact hscan,
    .inr ⟨⟨type, taken⟩, ⟨hne, .inr hblank⟩, rfl, by rw [hpass]⟩⟩

/-- A pass takes a fenced code block. -/
theorem takes_code (hblank : trim line ≠ []) (hfence : isFence (trim line) = true) :
    ∃ taken, Takes index line rest taken := by
  have hpass : pass index line rest =
      (some (Block.paragraph ⟨.code, line :: (fenceLoop ((trim line).take 3) rest).1⟩ index),
        (fenceLoop ((trim line).take 3) rest).2) := by
    rw [pass]
    simp only [if_neg hblank, if_pos hfence]
    rfl
  obtain ⟨hlines, hscan⟩ := fenceLoop_spec ((trim line).take 3) rest
  refine ⟨_, by rw [hpass]; exact congrArg (line :: ·) hlines, List.cons_ne_nil _ _, ?_,
    .inr ⟨_, ⟨List.cons_ne_nil _ _, .inl ⟨rfl, ?_⟩⟩, rfl, by rw [hpass]⟩⟩
  · rw [hpass, noStray, if_pos hfence]
    exact hscan
  · intro other hother
    obtain rfl := Option.some.inj hother
    exact hfence

/-- A pass takes a heading. -/
theorem takes_heading (hblank : trim line ≠ []) (hfence : isFence (trim line) = false)
    {level : ℕ} {text : JsString} (hheading : headingMatch (trim line) = some (level, text)) :
    ∃ taken, Takes index line rest taken := by
  refine ⟨[line], takes_of_pass .heading ?_ rfl (List.cons_ne_nil _ _)
    (List.forall_mem_singleton.mpr hblank) ?_⟩
  · rw [pass]
    simp only [if_neg hblank, hfence, Bool.false_eq_true, if_false, hheading, Block.paragraph,
      Block.content, List.head?_cons, Option.bind_some]
  · rw [noStray, hfence, hheading, startsWith_of_headingMatch (by rw [hheading]; rfl)]
    rfl

/-- A pass from a line that begins neither a fenced code block nor a heading. -/
theorem pass_of_none (index : ℕ) (rest : List JsString) (hblank : trim line ≠ []) (hfence : isFence (trim line) = false)
    (hheading : headingMatch (trim line) = none) : pass index line rest =
      if startsWith (trim line) (js ">") then
        (some ⟨join (unit '\n') (quoteLoop false (line :: rest)).1, .blockquote, none, index⟩,
          (quoteLoop false (line :: rest)).2)
      else if isTableRow (trim line) then
        (some ⟨join (unit '\n') (tableLoop (line :: rest)).1, .table, none, index⟩,
          (tableLoop (line :: rest)).2)
      else if isListItem (trim line) then (some ⟨trim line, .listItem, none, index⟩, rest)
      else if (paragraphLoop (line :: rest)).1 = [] then (none, (paragraphLoop (line :: rest)).2)
      else (some ⟨join (unit ' ') (paragraphLoop (line :: rest)).1, .paragraph, none, index⟩,
        (paragraphLoop (line :: rest)).2) := by
  rw [pass]
  simp only [if_neg hblank, hfence, Bool.false_eq_true, if_false, hheading]

/-- A pass takes a quotation. -/
theorem takes_quote (hblank : trim line ≠ []) (hfence : isFence (trim line) = false)
    (hheading : headingMatch (trim line) = none)
    (hquote : startsWith (trim line) (js ">") = true) : ∃ taken, Takes index line rest taken := by
  obtain ⟨taken, htaken, htexts, hlines, hscan⟩ := quoteLoop_spec rest
  have hcontinues : continuesQuote false (trim line) = true := by rw [continuesQuote, hquote]; rfl
  have hloop : quoteLoop false (line :: rest) =
      (unquote (trim line) :: (quoteLoop true rest).1, (quoteLoop true rest).2) := by
    rw [quoteLoop, if_pos hcontinues]
  have hhash : startsWith (trim line) (js "#") = false := by
    by_contra hhash
    rw [Bool.not_eq_false] at hhash
    have hhead := head?_of_startsWith hquote (show (js ">").head? = some (unit '>') by decide)
    have hhead' := head?_of_startsWith hhash (show (js "#").head? = some (unit '#') by decide)
    exact absurd (hhead.symm.trans hhead') (by decide)
  refine ⟨line :: taken, takes_of_pass .blockquote ?_
    (congrArg (line :: ·) htaken) (List.cons_ne_nil _ _) (List.forall_mem_cons.mpr
      ⟨hblank, hlines⟩) ?_⟩
  · rw [pass_of_none index rest hblank hfence hheading, if_pos hquote, hloop, htexts]
    rfl
  · rw [noStray, hfence, hhash, hquote]
    exact hscan

/-- A pass takes a table. -/
theorem takes_table (hblank : trim line ≠ []) (hfence : isFence (trim line) = false)
    (hheading : headingMatch (trim line) = none)
    (hquote : startsWith (trim line) (js ">") = false) (hrow : isTableRow (trim line) = true) :
    ∃ taken, Takes index line rest taken := by
  obtain ⟨taken, htaken, htexts, hlines, hscan⟩ := tableLoop_spec (line :: rest)
  have hne : taken ≠ [] := by
    rintro rfl
    rw [tableLoop, if_pos (Bool.and_eq_true_iff.mp hrow).1] at htexts
    cases htexts
  refine ⟨taken, takes_of_pass .table ?_ htaken hne hlines hscan⟩
  rw [pass_of_none index rest hblank hfence hheading, hquote, if_neg Bool.false_ne_true, if_pos hrow, htexts]
  rfl

/-- A pass takes an item of a list. -/
theorem takes_listItem (hblank : trim line ≠ []) (hfence : isFence (trim line) = false)
    (hheading : headingMatch (trim line) = none)
    (hquote : startsWith (trim line) (js ">") = false) (hrow : isTableRow (trim line) = false)
    (hitem : isListItem (trim line) = true) : ∃ taken, Takes index line rest taken := by
  refine ⟨[line], takes_of_pass .listItem ?_ rfl (List.cons_ne_nil _ _)
    (List.forall_mem_singleton.mpr hblank)
    (noStray_text_of_head? (head?_of_isListItem hitem))⟩
  rw [pass_of_none index rest hblank hfence hheading, hquote, if_neg Bool.false_ne_true, hrow,
    if_neg Bool.false_ne_true, if_pos hitem, Block.paragraph, Block.content]
  simp only [List.map_singleton, join_singleton]

/-- A pass takes a paragraph, or begins at a stray line and takes nothing. -/
theorem takes_paragraph (hblank : trim line ≠ []) (hfence : isFence (trim line) = false)
    (hheading : headingMatch (trim line) = none)
    (hquote : startsWith (trim line) (js ">") = false) (hrow : isTableRow (trim line) = false)
    (hitem : isListItem (trim line) = false) :
    (∃ taken, Takes index line rest taken) ∨
      (pass index line rest = (none, line :: rest) ∧ noStray .text (line :: rest) = false) := by
  have hpass := pass_of_none index rest hblank hfence hheading
  rw [hquote, if_neg Bool.false_ne_true, hrow, if_neg Bool.false_ne_true, hitem,
    if_neg Bool.false_ne_true] at hpass
  by_cases hends : endsParagraph (trim line) = true
  · have hloop : paragraphLoop (line :: rest) = ([], line :: rest) := by
      rw [paragraphLoop, if_pos hends]
    have hhash : startsWith (trim line) (js "#") = true := by
      simpa [endsParagraph, hblank, hfence, hquote, hrow, hitem] using hends
    refine .inr ⟨by rw [hpass, hloop]; rfl, ?_⟩
    rw [noStray, hfence, hhash, hheading]
    rfl
  · obtain ⟨taken, htaken, htexts, hlines, hscan⟩ := paragraphLoop_spec (line :: rest)
    have hne : (paragraphLoop (line :: rest)).1 ≠ [] := by
      rw [paragraphLoop, if_neg hends]
      exact List.cons_ne_nil _ _
    refine .inl ⟨taken, takes_of_pass .paragraph ?_ htaken ?_ hlines hscan⟩
    · rw [hpass, if_neg hne, htexts]
      rfl
    · rintro rfl
      exact hne htexts

/-- A pass takes a blank line or a block, unless it begins at a stray line. -/
theorem pass_spec (index : ℕ) (line : JsString) (rest : List JsString) :
    (∃ taken, Takes index line rest taken) ∨
      (pass index line rest = (none, line :: rest) ∧ noStray .text (line :: rest) = false) := by
  by_cases hblank : trim line = []
  · exact .inl ⟨_, takes_blank hblank⟩
  cases hfence : isFence (trim line) with
  | true => exact .inl (takes_code hblank hfence)
  | false =>
    cases hheading : headingMatch (trim line) with
    | some found => exact .inl (takes_heading hblank hfence hheading)
    | none =>
      cases hquote : startsWith (trim line) (js ">") with
      | true => exact .inl (takes_quote hblank hfence hheading hquote)
      | false =>
        cases hrow : isTableRow (trim line) with
        | true => exact .inl (takes_table hblank hfence hheading hquote hrow)
        | false =>
          cases hitem : isListItem (trim line) with
          | true => exact .inl (takes_listItem hblank hfence hheading hquote hrow hitem)
          | false => exact takes_paragraph hblank hfence hheading hquote hrow hitem

end

/-! ## The outer loop -/

/-- The paragraphs of blocks, numbered from an index on. -/
def paragraphsFrom (index : ℕ) (blocks : List Block) : List ParsedParagraph :=
  (blocks.zipIdx index).map fun block => block.1.paragraph block.2

/-- Without stray lines as many passes as lines suffice, and the paragraphs are those of the
blocks. -/
theorem splitLoop_of_noStray {passes : ℕ} {lines : List JsString} (hpasses : lines.length ≤ passes)
    (h : noStray .text lines = true) (paragraphs : List ParsedParagraph) :
    ∃ blocks, Layout lines blocks ∧ splitLoop passes lines paragraphs =
      some (paragraphs ++ paragraphsFrom paragraphs.length blocks) := by
  induction passes generalizing lines paragraphs with
  | zero =>
    obtain rfl := List.length_eq_zero_iff.mp (Nat.le_zero.mp hpasses)
    exact ⟨[], .nil, congrArg some (List.append_nil _).symm⟩
  | succ passes ih =>
    cases lines with
    | nil => exact ⟨[], .nil, congrArg some (List.append_nil _).symm⟩
    | cons line rest =>
      rcases pass_spec paragraphs.length line rest with ⟨taken, htakes⟩ | ⟨-, hstray⟩
      · rw [htakes.scan] at h
        have hlength := congrArg List.length htakes.lines
        have hprogress := List.length_pos_of_ne_nil htakes.progress
        rw [List.length_append] at hlength
        obtain ⟨blocks, hlayout, hloop⟩ := ih (by omega) h
          (paragraphs ++ (pass paragraphs.length line rest).1.toList)
        rw [← htakes.lines]
        rcases htakes.paragraph with ⟨hnone, rfl, hblank⟩ | ⟨block, hvalid, rfl, hsome⟩
        · refine ⟨blocks, .blank hblank hlayout, ?_⟩
          rw [htakes.lines, splitLoop]
          rw [hnone, Option.toList_none, List.append_nil] at hloop
          dsimp only
          rw [hnone, Option.toList_none, List.append_nil]
          exact hloop
        · refine ⟨block :: blocks, .block hvalid hlayout, ?_⟩
          rw [htakes.lines, splitLoop]
          dsimp only
          rw [hloop, hsome, Option.toList_some, List.append_assoc, List.length_append]
          rfl
      · rw [hstray] at h
        cases h

/-- With a stray line no number of passes suffices. -/
theorem splitLoop_of_stray (passes : ℕ) {lines : List JsString} (h : noStray .text lines = false)
    (paragraphs : List ParsedParagraph) : splitLoop passes lines paragraphs = none := by
  induction passes generalizing lines paragraphs with
  | zero =>
    cases lines with
    | nil => cases h
    | cons line rest => rfl
  | succ passes ih =>
    cases lines with
    | nil => cases h
    | cons line rest =>
      rw [splitLoop]
      rcases pass_spec paragraphs.length line rest with ⟨taken, htakes⟩ | ⟨hpass, -⟩
      · exact ih (htakes.scan ▸ h) _
      · rw [hpass]
        exact ih h _

/-- The splitting of a text returns within as many passes as the text has lines. Its paragraphs are
those of blocks that the lines consist of, in order and numbered from zero. -/
def Splits (markdown : JsString) : Prop :=
  ∃ passes ≤ (split (unit '\n') markdown).length, ∃ blocks,
    Layout (split (unit '\n') markdown) blocks ∧
      splitIntoParagraphs passes markdown = some (paragraphsFrom 0 blocks)

end T3x.Documents
