import T3x.Js.Shape
import Mathlib.Data.List.DropRight

/-!
# Reading comma-separated values

The rows of a text are read in one pass with one character of lookahead. Inside
quotes a doubled quote stands for one, and commas and line breaks are text. An
encoded table is given by its fields, each plain or quoted, and the ends of its
records.
-/

namespace T3x.Documents

open Js

/-! ## The reader -/

/-- A line feed. -/
def lineFeed : UInt16 := 10

/-- A carriage return. -/
def carriageReturn : UInt16 := 13

/-- `trimTrailingEmpty(values)`. -/
def trimTrailingEmpty (values : List JsString) : List JsString :=
  values.rdropWhile fun value => decide (value = [])

/-- The variables of the loop in `parseCsvRows`. -/
structure CsvState where
  /-- The rows that are complete. -/
  rows : List (List JsString)
  /-- The cells of the current row that are complete. -/
  row : List JsString
  /-- The current cell. -/
  value : JsString
  /-- Whether the current character stands between quotes. -/
  quoted : Bool

/-- The loop of `parseCsvRows` over the rest of the text. -/
def csvLoop (s : CsvState) : JsString → CsvState
  | [] => s
  | char :: rest =>
    let next := rest.head?
    if char = unit '"' ∧ s.quoted = true ∧ next = some (unit '"') then
      csvLoop { s with value := s.value ++ [unit '"'] } rest.tail
    else if char = unit '"' then
      csvLoop { s with quoted := !s.quoted } rest
    else if char = unit ',' ∧ s.quoted = false then
      csvLoop { s with row := s.row ++ [s.value], value := [] } rest
    else if (char = lineFeed ∨ char = carriageReturn) ∧ s.quoted = false then
      csvLoop { s with rows := s.rows ++ [s.row ++ [s.value]], row := [], value := [] }
        (if char = carriageReturn ∧ next = some lineFeed then rest.tail else rest)
    else csvLoop { s with value := s.value ++ [char] } rest
termination_by text => text.length
decreasing_by
  all_goals
    try split_ifs
    all_goals
      simp only [List.length_cons, List.length_tail]
      omega

/-- The rows after the loop: a row that has begun is complete at the end of the text. -/
def flushRow (s : CsvState) : List (List JsString) :=
  if s.value ≠ [] ∨ 0 < s.row.length then s.rows ++ [s.row ++ [s.value]] else s.rows

/-- A row with its cells trimmed and without the empty cells at its end. -/
def cleanRow (row : List JsString) : List JsString := trimTrailingEmpty (row.map trim)

/-- `Boolean(row)`: an array is an object, and every object is true. -/
def isTruthyRow (_ : List JsString) : Bool := true

/-- `parseCsvRows(text)`. -/
def parseCsvRows (text : JsString) : List (List JsString) :=
  ((flushRow (csvLoop ⟨[], [], [], false⟩ text)).map cleanRow).filter isTruthyRow

/-! ## Encoded tables -/

/-- A character that a plain field does not have. -/
def IsCsvMark (u : UInt16) : Prop :=
  u = unit '"' ∨ u = unit ',' ∨ u = carriageReturn ∨ u = lineFeed

/-- Whether a character is a mark can be tested. -/
instance : DecidablePred IsCsvMark := fun _ => inferInstanceAs (Decidable (_ ∨ _ ∨ _ ∨ _))

/-- A field of a record. -/
inductive CsvField where
  /-- The cell as it is, without any mark. -/
  | plain (cell : JsString) (isPlain : ∀ u ∈ cell, ¬ IsCsvMark u)
  /-- A cell between quotes. -/
  | quoted (cell : JsString)

/-- The cell that a field stands for. -/
def CsvField.cell : CsvField → JsString
  | .plain cell _ => cell
  | .quoted cell => cell

/-- A text with its quotes doubled. -/
def doubleQuotes (cell : JsString) : JsString :=
  cell.flatMap fun u => if u = unit '"' then [unit '"', unit '"'] else [u]

/-- The text of a field. -/
def CsvField.text : CsvField → JsString
  | .plain cell _ => cell
  | .quoted cell => unit '"' :: (doubleQuotes cell ++ [unit '"'])

/-- A record: its fields, one at least. -/
structure CsvRecord where
  /-- The first field. -/
  first : CsvField
  /-- The other fields. -/
  others : List CsvField

/-- The text of the fields behind the first. -/
def othersText (others : List CsvField) : JsString :=
  others.flatMap fun field => unit ',' :: field.text

/-- The text of a record. -/
def CsvRecord.text (record : CsvRecord) : JsString := record.first.text ++ othersText record.others

/-- The cells of a record. -/
def CsvRecord.cells (record : CsvRecord) : List JsString :=
  record.first.cell :: record.others.map CsvField.cell

/-- The ends of records. -/
inductive RecordEnd where
  | crlf
  | lf
  | cr
  deriving DecidableEq

/-- The text of an end. -/
def RecordEnd.text : RecordEnd → JsString
  | .crlf => [carriageReturn, lineFeed]
  | .lf => [lineFeed]
  | .cr => [carriageReturn]

/-- An encoded table: the records that end, and perhaps a last one that does not. -/
structure CsvFile where
  /-- The records with their ends. -/
  records : List (CsvRecord × RecordEnd)
  /-- The record behind the last end. -/
  last : Option CsvRecord

/-- The text of records and a last one. -/
def recordsText (records : List (CsvRecord × RecordEnd)) (last : Option CsvRecord) : JsString :=
  (records.flatMap fun entry => entry.1.text ++ entry.2.text) ++
    (last.map CsvRecord.text).getD []

/-- The text of an encoded table. -/
def CsvFile.text (file : CsvFile) : JsString := recordsText file.records file.last

/-- The table. -/
def CsvFile.table (file : CsvFile) : List (List JsString) :=
  file.records.map (fun entry => entry.1.cells) ++ (file.last.map CsvRecord.cells).toList

/-- The rows of the table, cleaned, without those that are left with no cell. -/
def CsvFile.imported (file : CsvFile) : List (List JsString) :=
  (file.table.map cleanRow).filter fun row => decide (row ≠ [])

/-- The rows that a text shows, behind a carriage return or not: a line feed behind a carriage
return begins no row, and neither does the end of the text. -/
def shownRows : Bool → List (CsvRecord × RecordEnd) → Option CsvRecord → List (List JsString)
  | _, [], none => []
  | _, [], some record => if record.cells = [[]] then [] else [record.cells]
  | afterReturn, (record, ending) :: records, last =>
    if afterReturn = true ∧ record.text = [] ∧ ending = .lf then shownRows false records last
    else record.cells :: shownRows (decide (ending = .cr)) records last

/-- The rows that the text of an encoded table shows. -/
def CsvFile.shown (file : CsvFile) : List (List JsString) :=
  shownRows false file.records file.last

/-! ## Steps of the loop -/

section

variable {s : CsvState} {rest : JsString}

/-- Text is added to the current cell. -/
theorem csvLoop_text {u : UInt16} (h : s.quoted = true ∧ u ≠ unit '"' ∨ ¬ IsCsvMark u) :
    csvLoop s (u :: rest) = csvLoop { s with value := s.value ++ [u] } rest := by
  have hquote : u ≠ unit '"' := by
    rcases h with h | h
    · exact h.2
    · exact fun heq => h (.inl heq)
  have hmark : ¬ (u = unit ',' ∧ s.quoted = false) ∧
      ¬ ((u = lineFeed ∨ u = carriageReturn) ∧ s.quoted = false) := by
    rcases h with h | h
    · simp [h.1]
    · simp only [IsCsvMark, not_or] at h
      simp [h]
  rw [csvLoop, if_neg fun hdoubled => hquote hdoubled.1, if_neg hquote, if_neg hmark.1,
    if_neg hmark.2]

/-- A quote outside quotes opens them. -/
theorem csvLoop_open (h : s.quoted = false) :
    csvLoop s (unit '"' :: rest) = csvLoop { s with quoted := true } rest := by
  rw [csvLoop, if_neg (by simp [h]), if_pos rfl, h]
  rfl

/-- A doubled quote inside quotes is a quote. -/
theorem csvLoop_doubled (h : s.quoted = true) :
    csvLoop s (unit '"' :: unit '"' :: rest) =
      csvLoop { s with value := s.value ++ [unit '"'] } rest := by
  rw [csvLoop, if_pos ⟨rfl, h, rfl⟩]
  rfl

/-- A quote inside quotes that no other one follows closes them. -/
theorem csvLoop_close (h : s.quoted = true) (hrest : rest.head? ≠ some (unit '"')) :
    csvLoop s (unit '"' :: rest) = csvLoop { s with quoted := false } rest := by
  rw [csvLoop, if_neg fun hdoubled => hrest hdoubled.2.2, if_pos rfl, h]
  rfl

/-- A comma outside quotes completes the current cell. -/
theorem csvLoop_comma (h : s.quoted = false) :
    csvLoop s (unit ',' :: rest) =
      csvLoop { s with row := s.row ++ [s.value], value := [] } rest := by
  have hquote : unit ',' ≠ unit '"' := by decide
  rw [csvLoop, if_neg fun hdoubled => hquote hdoubled.1, if_neg hquote, if_pos ⟨rfl, h⟩]

/-- The text behind a carriage return, without the line feed that goes with it. -/
def skipLineFeed (text : JsString) : JsString :=
  if text.head? = some lineFeed then text.tail else text

/-- The end of a record completes the current row. -/
theorem csvLoop_end (ending : RecordEnd) (h : s.quoted = false) :
    csvLoop s (ending.text ++ rest) =
      csvLoop { s with rows := s.rows ++ [s.row ++ [s.value]], row := [], value := [] }
        (if ending = .cr then skipLineFeed rest else rest) := by
  have hmarks : carriageReturn ≠ unit '"' ∧ lineFeed ≠ unit '"' ∧ carriageReturn ≠ unit ',' ∧
      lineFeed ≠ unit ',' ∧ lineFeed ≠ carriageReturn := by decide
  obtain ⟨hcrQuote, hlfQuote, hcrComma, hlfComma, hne⟩ := hmarks
  cases ending with
  | crlf =>
    rw [RecordEnd.text, List.cons_append, csvLoop, if_neg fun hc => hcrQuote hc.1,
      if_neg hcrQuote, if_neg fun hc => hcrComma hc.1, if_pos ⟨.inr rfl, h⟩]
    exact congrArg _ (if_pos ⟨rfl, rfl⟩)
  | lf =>
    rw [RecordEnd.text, List.singleton_append, csvLoop, if_neg fun hc => hlfQuote hc.1,
      if_neg hlfQuote, if_neg fun hc => hlfComma hc.1, if_pos ⟨.inl rfl, h⟩]
    exact congrArg _ (if_neg fun hc => hne hc.1)
  | cr =>
    rw [RecordEnd.text, List.singleton_append, csvLoop, if_neg fun hc => hcrQuote hc.1,
      if_neg hcrQuote, if_neg fun hc => hcrComma hc.1, if_pos ⟨.inr rfl, h⟩]
    rw [if_pos rfl, skipLineFeed]
    simp only [true_and]

/-! ## Fields and records -/

/-- Characters that are no marks are added to the current cell. -/
theorem csvLoop_plain {cell : JsString} (hcell : ∀ u ∈ cell, ¬ IsCsvMark u) :
    csvLoop s (cell ++ rest) = csvLoop { s with value := s.value ++ cell } rest := by
  induction cell generalizing s with
  | nil => rw [List.nil_append, List.append_nil]
  | cons u cell ih =>
    obtain ⟨hu, hcell⟩ := List.forall_mem_cons.mp hcell
    rw [List.cons_append, csvLoop_text (.inr hu), ih hcell, List.append_assoc]
    rfl

/-- A text with doubled quotes is read up to the closing quote. -/
theorem csvLoop_quoted {cell : JsString} (h : s.quoted = true)
    (hrest : rest.head? ≠ some (unit '"')) :
    csvLoop s (doubleQuotes cell ++ unit '"' :: rest) =
      csvLoop { s with value := s.value ++ cell, quoted := false } rest := by
  induction cell generalizing s with
  | nil =>
    rw [doubleQuotes, List.flatMap_nil, List.nil_append, csvLoop_close h hrest, List.append_nil]
  | cons u cell ih =>
    have hnext : csvLoop s (doubleQuotes (u :: cell) ++ unit '"' :: rest) =
        csvLoop { s with value := s.value ++ [u] } (doubleQuotes cell ++ unit '"' :: rest) := by
      rw [doubleQuotes, List.flatMap_cons, ← doubleQuotes]
      split_ifs with hu
      · rw [hu]
        exact csvLoop_doubled h
      · exact csvLoop_text (.inl ⟨h, hu⟩)
    rw [hnext, ih (s := { s with value := s.value ++ [u] }) h, List.append_assoc]
    rfl

/-- A field adds its cell to the current one. -/
theorem csvLoop_field (field : CsvField) (h : s.quoted = false)
    (hrest : rest.head? ≠ some (unit '"')) :
    csvLoop s (field.text ++ rest) = csvLoop { s with value := s.value ++ field.cell } rest := by
  cases field with
  | plain cell hcell => exact csvLoop_plain hcell
  | quoted cell =>
    rw [CsvField.text, List.cons_append, List.append_assoc, csvLoop_open h,
      List.singleton_append, csvLoop_quoted rfl hrest]
    rw [← h]
    rfl

/-- What follows a field does not begin with a quote. -/
theorem head?_othersText {others : List CsvField} (hrest : rest.head? ≠ some (unit '"')) :
    (othersText others ++ rest).head? ≠ some (unit '"') := by
  cases others with
  | nil => exact hrest
  | cons field others =>
    have hne : unit ',' ≠ unit '"' := by decide
    exact fun h => hne (Option.some.inj h)

/-- The fields behind the first complete the cells before them. -/
theorem csvLoop_others (others : List CsvField) (h : s.quoted = false)
    (hrest : rest.head? ≠ some (unit '"')) :
    ∃ row value, row ++ [value] = s.row ++ s.value :: others.map CsvField.cell ∧
      csvLoop s (othersText others ++ rest) = csvLoop { s with row, value } rest := by
  induction others generalizing s with
  | nil => exact ⟨s.row, s.value, rfl, rfl⟩
  | cons field others ih =>
    obtain ⟨row, value, hcells, hloop⟩ :=
      ih (s := { s with row := s.row ++ [s.value], value := field.cell }) h
    refine ⟨row, value, ?_, ?_⟩
    · rw [hcells, List.append_assoc]
      rfl
    · rw [othersText, List.flatMap_cons, ← othersText, List.cons_append, List.cons_append,
        List.append_assoc, csvLoop_comma h,
        csvLoop_field (s := { s with row := s.row ++ [s.value], value := [] }) field h
          (head?_othersText hrest)]
      exact hloop

/-- A record at the beginning of a row gives its cells. -/
theorem csvLoop_record (record : CsvRecord) (rows : List (List JsString))
    (hrest : rest.head? ≠ some (unit '"')) :
    ∃ row value, row ++ [value] = record.cells ∧
      csvLoop ⟨rows, [], [], false⟩ (record.text ++ rest) =
        csvLoop ⟨rows, row, value, false⟩ rest := by
  obtain ⟨row, value, hcells, hloop⟩ :=
    csvLoop_others (s := ⟨rows, [], record.first.cell, false⟩) record.others rfl hrest
  refine ⟨row, value, hcells, ?_⟩
  rw [CsvRecord.text, List.append_assoc, csvLoop_field _ rfl (head?_othersText hrest)]
  exact hloop

end

/-! ## The whole text -/

/-- No record begins with a line feed. -/
theorem head?_text_ne_lineFeed (record : CsvRecord) : record.text.head? ≠ some lineFeed := by
  have hmarks : unit '"' ≠ lineFeed ∧ unit ',' ≠ lineFeed := by decide
  intro h
  unfold CsvRecord.text at h
  cases hfirst : record.first with
  | quoted cell =>
    rw [hfirst, CsvField.text, List.cons_append, List.head?_cons] at h
    exact hmarks.1 (Option.some.inj h)
  | plain cell hcell =>
    rw [hfirst, CsvField.text] at h
    cases cell with
    | cons u cell =>
      obtain rfl := Option.some.inj h
      exact hcell _ List.mem_cons_self (.inr (.inr (.inr rfl)))
    | nil =>
      cases hothers : record.others with
      | nil => simp [hothers, othersText] at h
      | cons field others =>
        rw [hothers] at h
        exact hmarks.2 (Option.some.inj h)

/-- The text of records does not begin with a line feed, unless an empty record ends with one. -/
theorem skipLineFeed_recordsText (record : CsvRecord) (ending : RecordEnd) (rest : JsString) :
    skipLineFeed (record.text ++ (ending.text ++ rest)) =
      if record.text = [] ∧ ending = .lf then rest
      else record.text ++ (ending.text ++ rest) := by
  have hhead := head?_text_ne_lineFeed record
  have hne : carriageReturn ≠ lineFeed := by decide
  cases htext : record.text with
  | cons u text =>
    rw [htext] at hhead
    rw [if_neg fun h => absurd h.1 (List.cons_ne_nil _ _)]
    exact if_neg hhead
  | nil =>
    cases ending with
    | lf => simp [skipLineFeed, RecordEnd.text]
    | crlf => simp [skipLineFeed, RecordEnd.text, hne]
    | cr => simp [skipLineFeed, RecordEnd.text, hne]

/-- A last record that does not end is completed by the end of the text, if it is not a single
empty cell. -/
theorem flushRow_record {rows : List (List JsString)} {row : List JsString} {value : JsString} :
    flushRow ⟨rows, row, value, false⟩ =
      rows ++ if row ++ [value] = [[]] then [] else [row ++ [value]] := by
  unfold flushRow
  by_cases hrow : row = []
  · subst hrow
    by_cases hvalue : value = []
    · simp [hvalue]
    · simp [hvalue]
  · have hlength : 0 < row.length := List.length_pos_of_ne_nil hrow
    have hcells : row ++ [value] ≠ [[]] := by
      intro h
      have hcount := congrArg List.length h
      simp at hcount
      exact hrow hcount
    rw [if_pos (.inr hlength), if_neg hcells]

/-- The text of a first record, its end, and what follows. -/
theorem recordsText_cons (record : CsvRecord) (ending : RecordEnd)
    (records : List (CsvRecord × RecordEnd)) (last : Option CsvRecord) :
    recordsText ((record, ending) :: records) last =
      record.text ++ (ending.text ++ recordsText records last) := by
  simp [recordsText]

/-- The end of a record does not begin with a quote. -/
theorem head?_ending (ending : RecordEnd) (rest : JsString) :
    (ending.text ++ rest).head? ≠ some (unit '"') := by
  have hmarks : carriageReturn ≠ unit '"' ∧ lineFeed ≠ unit '"' := by decide
  cases ending with
  | crlf => exact fun h => hmarks.1 (Option.some.inj h)
  | lf => exact fun h => hmarks.2 (Option.some.inj h)
  | cr => exact fun h => hmarks.1 (Option.some.inj h)

/-- A record that ends gives a row, and the reading goes on behind its end. -/
theorem csvLoop_ended (record : CsvRecord) (ending : RecordEnd) (rest : JsString)
    (rows : List (List JsString)) :
    csvLoop ⟨rows, [], [], false⟩ (record.text ++ (ending.text ++ rest)) =
      csvLoop ⟨rows ++ [record.cells], [], [], false⟩
        (if ending = .cr then skipLineFeed rest else rest) := by
  obtain ⟨row, value, hcells, hloop⟩ := csvLoop_record record rows (head?_ending ending rest)
  rw [hloop, csvLoop_end (s := ⟨rows, row, value, false⟩) ending rfl, ← hcells]

/-- The rows that are read are the rows that the text shows. -/
theorem flushRow_csvLoop (records : List (CsvRecord × RecordEnd)) (last : Option CsvRecord)
    (rows : List (List JsString)) (afterReturn : Bool) :
    flushRow (csvLoop ⟨rows, [], [], false⟩
        (if afterReturn = true then skipLineFeed (recordsText records last)
          else recordsText records last)) =
      rows ++ shownRows afterReturn records last := by
  induction records generalizing rows afterReturn with
  | nil =>
    cases last with
    | none =>
      have htext : (if afterReturn = true then skipLineFeed (recordsText [] none)
          else recordsText [] none) = [] := by
        split_ifs <;> rfl
      rw [htext, csvLoop, shownRows, List.append_nil]
      exact if_neg (by simp)
    | some record =>
      have hlast : recordsText [] (some record) = record.text := rfl
      have htext : (if afterReturn = true then skipLineFeed record.text else record.text) =
          record.text ++ [] := by
        rw [skipLineFeed, if_neg (head?_text_ne_lineFeed record), ite_self, List.append_nil]
      have hend : ([] : JsString).head? ≠ some (unit '"') := by simp
      obtain ⟨row, value, hcells, hloop⟩ := csvLoop_record record rows hend
      rw [hlast, htext, hloop, csvLoop, flushRow_record, hcells, shownRows]
  | cons entry records ih =>
    obtain ⟨record, ending⟩ := entry
    have hended := csvLoop_ended record ending (recordsText records last) rows
    have hgoes := ih (rows ++ [record.cells]) (decide (ending = .cr))
    simp only [decide_eq_true_eq] at hgoes
    rw [recordsText_cons, shownRows, skipLineFeed_recordsText]
    by_cases hskip : afterReturn = true ∧ record.text = [] ∧ ending = .lf
    · -- the line feed belongs to the carriage return in front of it
      rw [if_pos hskip, if_pos hskip.1, if_pos hskip.2]
      exact ih rows false
    · have htext : (if afterReturn = true then
          if record.text = [] ∧ ending = .lf then recordsText records last
          else record.text ++ (ending.text ++ recordsText records last)
          else record.text ++ (ending.text ++ recordsText records last)) =
          record.text ++ (ending.text ++ recordsText records last) := by
        split_ifs with hreturn hempty
        · exact absurd ⟨hreturn, hempty⟩ hskip
        · rfl
        · rfl
      rw [htext, if_neg hskip, hended, hgoes, List.append_assoc]
      rfl

/-- The rows of an encoded table that its text shows are read and cleaned. -/
theorem parseCsvRows_text (file : CsvFile) : parseCsvRows file.text = file.shown.map cleanRow := by
  have hrows := flushRow_csvLoop file.records file.last [] false
  rw [if_neg (by simp), List.nil_append] at hrows
  rw [parseCsvRows, CsvFile.text, hrows]
  exact List.filter_eq_self.mpr fun _ _ => rfl

/-- A row that the text does not show is left with no cell. -/
theorem filter_map_shownRows (records : List (CsvRecord × RecordEnd)) (last : Option CsvRecord)
    (afterReturn : Bool) :
    ((shownRows afterReturn records last).map cleanRow).filter (fun row => decide (row ≠ [])) =
      (CsvFile.imported ⟨records, last⟩) := by
  have hblank : cleanRow [[]] = [] := rfl
  induction records generalizing afterReturn with
  | nil =>
    cases last with
    | none => rfl
    | some record =>
      rw [shownRows]
      split_ifs with hcells
      · simp [CsvFile.imported, CsvFile.table, hcells, hblank]
      · rfl
  | cons entry records ih =>
    obtain ⟨record, ending⟩ := entry
    have htable : CsvFile.imported ⟨(record, ending) :: records, last⟩ =
        [cleanRow record.cells].filter (fun row => decide (row ≠ [])) ++
          CsvFile.imported ⟨records, last⟩ := by
      rw [CsvFile.imported, CsvFile.imported, ← List.filter_append]
      rfl
    rw [shownRows, htable]
    split_ifs with hskip
    · have hcells : record.cells = [[]] := by
        obtain ⟨first, others⟩ := record
        have htext := hskip.2.1
        rw [CsvRecord.text, List.append_eq_nil_iff] at htext
        cases others with
        | cons field others => exact absurd htext.2 (List.cons_ne_nil _ _)
        | nil =>
          cases first with
          | quoted cell => exact absurd htext.1 (List.cons_ne_nil _ _)
          | plain cell hcell =>
            obtain rfl : cell = [] := htext.1
            rfl
      rw [ih, hcells, hblank]
      rfl
    · rw [List.map_cons, ← ih (decide (ending = .cr)), ← List.filter_append]
      rfl

/-- An encoded table is imported as its rows with a cell exactly when every row that its text
shows has one. -/
theorem parseCsvRows_eq_imported_iff (file : CsvFile) :
    parseCsvRows file.text = file.imported ↔ ∀ row ∈ file.shown, cleanRow row ≠ [] := by
  have hkept := filter_map_shownRows file.records file.last false
  rw [parseCsvRows_text, ← hkept, CsvFile.shown, eq_comm, List.filter_eq_self]
  simp only [List.forall_mem_map, decide_eq_true_eq]

/-- Two rows with an empty line between them, encoded. -/
def spacedFile : CsvFile where
  records := [(⟨.plain [unit 'a'] (forall_mem_of_all (by decide)), []⟩, .lf), (⟨.plain [] (forall_mem_of_all (by decide)), []⟩, .lf)]
  last := some ⟨.plain [unit 'b'] (forall_mem_of_all (by decide)), []⟩

/-- The empty line is imported as a row without cells. -/
theorem parseCsvRows_spacedFile : spacedFile.text = js "a\n\nb" ∧
    parseCsvRows spacedFile.text = [[js "a"], [], [js "b"]] ∧
    spacedFile.imported = [[js "a"], [js "b"]] ∧
    parseCsvRows spacedFile.text ≠ spacedFile.imported := by
  have himported : spacedFile.imported = [[js "a"], [js "b"]] := by decide
  rw [parseCsvRows_text, himported]
  exact ⟨by decide, by decide, rfl, by decide⟩

end T3x.Documents
