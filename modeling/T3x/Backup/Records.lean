import T3x.Backup.Manifest
import T3x.Js.StreamDecoder
import T3x.Storage.JsonParse

/-!
# The records of an archive entry

The bytes of an entry come in chunks, and are checked as they come: a chunk may
end within a line, or within a character. The validator carries what it has of
the current line, so that what it says of an entry is what holds of all its
bytes together, whatever the chunks.
-/

namespace T3x.Backup

open Js

/-! ## The validator -/

/-- The variables of `entryRecordValidator`. -/
structure RecordState where
  /-- The bytes that `decoder` holds. -/
  pending : List UInt8
  /-- The text of the current record. -/
  text : JsString
  /-- The bytes of the current record. -/
  bytes : ℕ
  /-- The records that are finished. -/
  records : ℕ

/-- The message of the error that a fatal decoder throws. -/
def encodingMessage : JsString := js "The encoded data was not valid for encoding utf-8"

/-- A validator that is at the start of a record. -/
def RecordState.fresh (records : ℕ) : RecordState := ⟨[], [], 0, records⟩

section

variable (entry : ProjectArchiveEntryDescriptor) (maxRecordBytes : ℕ)

/-- `append(part)`. -/
def append (state : RecordState) (part : List UInt8) : Except JsString RecordState :=
  if state.bytes + part.length > maxRecordBytes then
    .error (js "JSON record exceeds the configured byte bound")
  else
    match decodeStream state.pending part with
    | none => .error encodingMessage
    | some (points, held) =>
      .ok { state with
        pending := held
        text := state.text ++ points.flatMap pointUnits
        bytes := state.bytes + part.length }

/-- `finishRecord()`. -/
def finishRecord (state : RecordState) : Except JsString RecordState :=
  if state.pending ≠ [] then .error encodingMessage
  else
    match Storage.jsonParse state.text with
    | none => .error (js "payload contains invalid JSON")
    | some value =>
      if Storage.isRecordTree value = false then .error (js "payload records must be JSON objects")
      else if state.records + 1 > entry.records then
        .error (js "record count does not match the manifest")
      else .ok (.fresh (state.records + 1))

/-- The loop over the newlines of a chunk, at whose end the rest is appended. The bytes of the
chunk since the last newline are `part`. -/
def writeLines (state : RecordState) (part : List UInt8) :
    List UInt8 → Except JsString RecordState
  | [] => append maxRecordBytes state part
  | b :: chunk =>
    if b = 10 then do
      let state ← append maxRecordBytes state part
      let state ← finishRecord entry state
      writeLines state [] chunk
    else writeLines state (part ++ [b]) chunk

/-- `write(chunk)`. -/
def write (state : RecordState) (chunk : List UInt8) : Except JsString RecordState :=
  if entry.kind.mediaType = "application/json" then
    append maxRecordBytes state chunk
  else writeLines entry maxRecordBytes state [] chunk

/-- `finish()`. -/
def finish (state : RecordState) : Except JsString Unit := do
  let state ←
    if entry.kind.mediaType = "application/json" ∨ state.bytes > 0 then
      finishRecord entry state
    else .ok state
  if state.records ≠ entry.records then .error (js "record count does not match the manifest")
  else .ok ()

end

/-! ## What the records are -/

/-- A line of at most so many bytes that is the UTF-8 encoding of the JSON text of an object. -/
def IsObjectText (maxRecordBytes : ℕ) (line : List UInt8) : Prop :=
  line.length ≤ maxRecordBytes ∧ ∃ points, decodePoints line = some points ∧
    ∃ value, Storage.jsonParse (points.flatMap pointUnits) = some value ∧
      Storage.isRecordTree value = true

/-- So many objects, one on each line; the newline of the last line may be missing. -/
def AreLines (maxRecordBytes records : ℕ) (content : List UInt8) : Prop :=
  ∃ lines : List (List UInt8), lines.length = records ∧
    (∀ line ∈ lines, 10 ∉ line ∧ IsObjectText maxRecordBytes line) ∧
    (content = lines.flatMap (· ++ [10]) ∨ content ++ [10] = lines.flatMap (· ++ [10]))

/-- The records that an entry declares: lines, or one object for the metadata. -/
def AreRecords (entry : ProjectArchiveEntryDescriptor) (maxRecordBytes : ℕ)
    (content : List UInt8) : Prop :=
  if entry.kind = .projectMetadata then IsObjectText maxRecordBytes content ∧ entry.records = 1
  else AreLines maxRecordBytes entry.records content

/-! ## Chunks -/

/-- What comes of two steps, if no step throws. -/
theorem toOption_bind {T U : Type} (first : Except JsString T) (next : T → Except JsString U) :
    (first >>= next).toOption = first.toOption.bind fun x => (next x).toOption := by
  cases first <;> rfl

/-- What does not throw has a value. -/
theorem toOption_eq_some_iff {T : Type} {result : Except JsString T} {x : T} :
    result.toOption = some x ↔ result = .ok x := by
  cases result <;> simp [Except.toOption]

section

variable {entry : ProjectArchiveEntryDescriptor} {maxRecordBytes : ℕ}

/-- Two parts are appended as one. -/
theorem append_append (state : RecordState) (part more : List UInt8) :
    ((append maxRecordBytes state part).toOption.bind fun next =>
      (append maxRecordBytes next more).toOption) =
        (append maxRecordBytes state (part ++ more)).toOption := by
  unfold append
  rw [decodeStream_append, List.length_append]
  by_cases hpart : state.bytes + part.length > maxRecordBytes
  · rw [if_pos hpart, if_pos (by omega)]
    rfl
  · rw [if_neg hpart]
    cases decodeStream state.pending part with
    | none => split_ifs <;> rfl
    | some read =>
      obtain ⟨points, held⟩ := read
      simp only [Except.toOption, Option.bind_some]
      by_cases hmore : state.bytes + part.length + more.length > maxRecordBytes
      · rw [if_pos hmore, if_pos (by omega)]
      · rw [if_neg hmore, if_neg (by omega)]
        cases decodeStream held more with
        | none => rfl
        | some read => simp [Nat.add_assoc]

/-- Nothing is appended. -/
theorem append_nil {state : RecordState} (h : state.bytes ≤ maxRecordBytes) :
    append maxRecordBytes state [] = .ok state := by
  unfold append
  rw [if_neg (by simpa using h)]
  simp [decodeStream]

/-- The bytes that were appended are counted, and within the bound. -/
theorem bytes_of_append {state next : RecordState} {part : List UInt8}
    (h : append maxRecordBytes state part = .ok next) :
    next.bytes = state.bytes + part.length ∧ next.bytes ≤ maxRecordBytes := by
  unfold append at h
  split_ifs at h with hbound
  cases hdecode : decodeStream state.pending part with
  | none =>
    rw [hdecode] at h
    cases h
  | some read =>
    rw [hdecode] at h
    obtain rfl := Except.ok.inj h
    exact ⟨rfl, not_lt.mp hbound⟩

/-- What was appended and the start of a chunk are one part. -/
theorem writeLines_part (state : RecordState) (part more chunk : List UInt8) :
    ((append maxRecordBytes state part).toOption.bind fun next =>
      (writeLines entry maxRecordBytes next more chunk).toOption) =
        (writeLines entry maxRecordBytes state (part ++ more) chunk).toOption := by
  induction chunk generalizing more with
  | nil => exact append_append state part more
  | cons b chunk ih =>
    simp only [writeLines]
    split_ifs
    · simp only [toOption_bind, ← append_append state part more, Option.bind_assoc]
    · rw [ih (more ++ [b]), List.append_assoc]

/-- Two chunks are written as one. -/
theorem writeLines_append (state : RecordState) (part chunk more : List UInt8) :
    ((writeLines entry maxRecordBytes state part chunk).toOption.bind fun next =>
      (writeLines entry maxRecordBytes next [] more).toOption) =
        (writeLines entry maxRecordBytes state part (chunk ++ more)).toOption := by
  induction chunk generalizing state part with
  | nil =>
    refine (writeLines_part state part [] more).trans ?_
    rw [List.append_nil, List.nil_append]
  | cons b chunk ih =>
    rw [List.cons_append]
    simp only [writeLines]
    split_ifs
    · simp only [toOption_bind, Option.bind_assoc, ih]
    · exact ih state (part ++ [b])

/-- Two chunks are written as one, whatever the entry. -/
theorem write_append (state : RecordState) (chunk more : List UInt8) :
    ((write entry maxRecordBytes state chunk).toOption.bind fun next =>
      (write entry maxRecordBytes next more).toOption) =
        (write entry maxRecordBytes state (chunk ++ more)).toOption := by
  unfold write
  split_ifs
  · exact append_append state chunk more
  · exact writeLines_append state [] chunk more

/-- Nothing is written. -/
theorem write_nil {state : RecordState} (h : state.bytes ≤ maxRecordBytes) :
    write entry maxRecordBytes state [] = .ok state := by
  unfold write
  split_ifs
  · exact append_nil h
  · exact append_nil h

/-- What was written is within the bound. -/
theorem bytes_of_write {state next : RecordState} {chunk : List UInt8}
    (h : write entry maxRecordBytes state chunk = .ok next) : next.bytes ≤ maxRecordBytes := by
  have hlines : ∀ (chunk : List UInt8) (state : RecordState) (part : List UInt8),
      writeLines entry maxRecordBytes state part chunk = .ok next →
        next.bytes ≤ maxRecordBytes := by
    intro chunk
    induction chunk with
    | nil => exact fun state part h => (bytes_of_append h).2
    | cons b chunk ih =>
      intro state part h
      unfold writeLines at h
      split_ifs at h
      · cases happend : append maxRecordBytes state part with
        | error message =>
          rw [happend] at h
          cases h
        | ok appended =>
          rw [happend] at h
          change (finishRecord entry appended >>= _) = _ at h
          cases hfinish : finishRecord entry appended with
          | error message =>
            rw [hfinish] at h
            cases h
          | ok finished =>
            rw [hfinish] at h
            exact ih finished [] h
      · exact ih state (part ++ [b]) h
  unfold write at h
  split_ifs at h
  · exact (bytes_of_append h).2
  · exact hlines chunk state [] h

/-! ## Lines -/

/-- A line is an object if it is appended and finished as a record. -/
theorem finishRecord_append_eq_ok_iff {records : ℕ} {line : List UInt8} {next : RecordState} :
    (append maxRecordBytes (.fresh records) line >>= finishRecord entry) = .ok next ↔
      IsObjectText maxRecordBytes line ∧ records + 1 ≤ entry.records ∧
        next = .fresh (records + 1) := by
  have hnone : Holds [] := trivial
  have hend := decodeStream_end hnone line
  rw [List.nil_append] at hend
  unfold append IsObjectText
  simp only [RecordState.fresh, Nat.zero_add, List.nil_append]
  by_cases hbound : line.length > maxRecordBytes
  · rw [if_pos hbound]
    refine iff_of_false (fun h => by cases h) fun h => ?_
    exact absurd h.1.1 (by omega)
  · rw [if_neg hbound, ← hend]
    cases decodeStream [] line with
    | none =>
      refine iff_of_false (fun h => by cases h) fun h => ?_
      obtain ⟨-, points, hpoints, -⟩ := h.1
      cases hpoints
    | some read =>
      obtain ⟨points, held⟩ := read
      change finishRecord entry _ = _ ↔ _
      simp only [finishRecord, Option.bind_some, decodeEnd]
      by_cases hheld : held = []
      · rw [if_neg (not_not.mpr hheld)]
        simp only [if_pos hheld, Option.some.injEq, exists_eq_left']
        cases Storage.jsonParse (points.flatMap pointUnits) with
        | none => simp
        | some value =>
          dsimp only
          simp only [Option.some.injEq, exists_eq_left']
          split_ifs with hrecord hcount
          · simp [hrecord]
          · simp only [false_iff, not_and]
            omega
          · simp only [Except.ok.injEq, RecordState.fresh]
            constructor
            · rintro rfl
              exact ⟨⟨by omega, Bool.eq_true_of_not_eq_false hrecord⟩, by omega, rfl⟩
            · rintro ⟨-, -, rfl⟩
              rfl
      · rw [if_pos hheld]
        simp [hheld]

/-- The empty line is no object. -/
theorem not_isObjectText_nil : ¬ IsObjectText maxRecordBytes [] := by
  rintro ⟨-, points, hpoints, value, hvalue, -⟩
  obtain rfl := Option.some.inj hpoints
  cases hvalue

/-- Where a record is open at the end, it is finished and the records are counted. -/
theorem finish_eq_ok_iff {state : RecordState}
    (hopen : entry.kind.mediaType = "application/json" ∨ state.bytes > 0) :
    finish entry state = .ok () ↔
      ∃ next, finishRecord entry state = .ok next ∧ next.records = entry.records := by
  unfold finish
  rw [if_pos hopen]
  cases finishRecord entry state with
  | error message => exact iff_of_false (fun h => by cases h) fun ⟨_, h, _⟩ => by cases h
  | ok next =>
    change (if next.records ≠ entry.records then _ else _) = _ ↔ _
    split_ifs with h
    · simp [h]
    · simp [not_not.mp h]

/-- A record at the end of the bytes is appended and finished if it is an object, and counted. -/
theorem finish_append_iff {records : ℕ} {line : List UInt8}
    (hopen : entry.kind.mediaType = "application/json" ∨ line ≠ []) :
    (∃ state, append maxRecordBytes (.fresh records) line = .ok state ∧
      finish entry state = .ok ()) ↔
        IsObjectText maxRecordBytes line ∧ records + 1 = entry.records := by
  have hstill : ∀ state, append maxRecordBytes (.fresh records) line = .ok state →
      entry.kind.mediaType = "application/json" ∨ state.bytes > 0 := by
    intro state happend
    refine hopen.imp_right fun hne => ?_
    rw [(bytes_of_append happend).1]
    exact Nat.add_pos_right _ (List.length_pos_of_ne_nil hne)
  constructor
  · rintro ⟨state, happend, hfinish⟩
    obtain ⟨next, hnext, hcount⟩ := (finish_eq_ok_iff (hstill state happend)).mp hfinish
    obtain ⟨hline, -, rfl⟩ := finishRecord_append_eq_ok_iff.mp
      (bind_eq_ok_iff.mpr ⟨state, happend, hnext⟩)
    exact ⟨hline, hcount⟩
  · rintro ⟨hline, hcount⟩
    obtain ⟨state, happend, hnext⟩ := bind_eq_ok_iff.mp
      (finishRecord_append_eq_ok_iff.mpr ⟨hline, hcount.le, rfl⟩)
    exact ⟨state, happend, (finish_eq_ok_iff (hstill state happend)).mpr ⟨_, hnext, hcount⟩⟩

/-- Lines with a newline behind each begin with the first of them. -/
theorem eq_cons_of_flatMap {line rest : List UInt8} {lines : List (List UInt8)} (hline : 10 ∉ line)
    (hlines : ∀ other ∈ lines, 10 ∉ other)
    (h : line ++ 10 :: rest = lines.flatMap (· ++ [10])) :
    ∃ others, lines = line :: others ∧ rest = others.flatMap (· ++ [10]) := by
  cases lines with
  | nil => simp at h
  | cons first others =>
    have hfirst := hlines first List.mem_cons_self
    rw [List.flatMap_cons, List.append_assoc, List.singleton_append] at h
    rcases List.append_eq_append_iff.mp h with ⟨more, hmore, heq⟩ | ⟨more, hmore, heq⟩
    · cases more with
      | nil =>
        rw [List.append_nil] at hmore
        exact ⟨others, by rw [hmore], (List.cons.inj heq).2⟩
      | cons b more =>
        refine absurd ?_ hfirst
        rw [hmore, (List.cons.inj heq).1]
        simp
    · cases more with
      | nil =>
        rw [List.append_nil] at hmore
        exact ⟨others, by rw [hmore], (List.cons.inj heq).2.symm⟩
      | cons b more =>
        refine absurd ?_ hline
        rw [hmore, (List.cons.inj heq).1]
        simp

/-- The bytes behind a part of a line are written and finished if they go on with it to as many
lines as are missing. -/
theorem writeLines_iff (hkind : entry.kind.mediaType ≠ "application/json") {part : List UInt8}
    (hpart : 10 ∉ part) (content : List UInt8) (records : ℕ) :
    (∃ state, writeLines entry maxRecordBytes (.fresh records) part content = .ok state ∧
      finish entry state = .ok ()) ↔
        ∃ lines : List (List UInt8), records + lines.length = entry.records ∧
          (∀ line ∈ lines, 10 ∉ line ∧ IsObjectText maxRecordBytes line) ∧
            (part ++ content = lines.flatMap (· ++ [10]) ∨
              part ++ content ++ [10] = lines.flatMap (· ++ [10])) := by
  induction content generalizing records part with
  | nil =>
    rw [List.append_nil]
    by_cases hnil : part = []
    · subst hnil
      have hfinish : finish entry (.fresh records) = .ok () ↔ records = entry.records := by
        unfold finish
        rw [if_neg (by simp [hkind, RecordState.fresh])]
        change (if records ≠ entry.records then _ else _) = _ ↔ _
        split_ifs with h
        · simp [h]
        · simp [not_not.mp h]
      have hbound : (RecordState.fresh records).bytes ≤ maxRecordBytes := Nat.zero_le _
      simp only [writeLines, append_nil hbound, Except.ok.injEq, exists_eq_left', hfinish]
      constructor
      · exact fun h => ⟨[], h, by simp, .inl rfl⟩
      · rintro ⟨lines, hcount, hlines, hcontent | hcontent⟩
        · cases lines with
          | nil => exact hcount
          | cons line lines => simp at hcontent
        · obtain ⟨others, rfl, -⟩ := eq_cons_of_flatMap hpart
            (fun line hline => (hlines line hline).1) hcontent
          exact absurd (hlines [] List.mem_cons_self).2 not_isObjectText_nil
    · refine (finish_append_iff (.inr hnil)).trans ?_
      constructor
      · rintro ⟨hline, hcount⟩
        exact ⟨[part], hcount, by simpa using ⟨hpart, hline⟩, .inr (by simp)⟩
      · rintro ⟨lines, hcount, hlines, hcontent | hcontent⟩
        · refine absurd ?_ hpart
          cases lines with
          | nil => exact absurd hcontent hnil
          | cons line lines =>
            rw [hcontent]
            simp
        · obtain ⟨others, rfl, hrest⟩ := eq_cons_of_flatMap hpart
            (fun line hline => (hlines line hline).1) hcontent
          cases others with
          | nil => exact ⟨(hlines part List.mem_cons_self).2, hcount⟩
          | cons other others => simp at hrest
  | cons b content ih =>
    by_cases hnewline : b = 10
    · subst hnewline
      have hsteps : (∃ state, writeLines entry maxRecordBytes (.fresh records) part (10 :: content) =
          .ok state ∧ finish entry state = .ok ()) ↔
            (IsObjectText maxRecordBytes part ∧ records + 1 ≤ entry.records) ∧
              ∃ state, writeLines entry maxRecordBytes (.fresh (records + 1)) [] content = .ok state ∧
                finish entry state = .ok () := by
        constructor
        · rintro ⟨state, hwrite, hfinish⟩
          simp only [writeLines, if_true] at hwrite
          obtain ⟨appended, happend, hwrite⟩ := bind_eq_ok_iff.mp hwrite
          obtain ⟨next, hnext, hwrite⟩ := bind_eq_ok_iff.mp hwrite
          obtain ⟨hline, hcount, rfl⟩ := finishRecord_append_eq_ok_iff.mp
            (bind_eq_ok_iff.mpr ⟨appended, happend, hnext⟩)
          exact ⟨⟨hline, hcount⟩, state, hwrite, hfinish⟩
        · rintro ⟨⟨hline, hcount⟩, state, hwrite, hfinish⟩
          obtain ⟨appended, happend, hnext⟩ := bind_eq_ok_iff.mp
            (finishRecord_append_eq_ok_iff.mpr ⟨hline, hcount, rfl⟩)
          refine ⟨state, ?_, hfinish⟩
          simp only [writeLines, if_true]
          exact bind_eq_ok_iff.mpr ⟨appended, happend, bind_eq_ok_iff.mpr ⟨_, hnext, hwrite⟩⟩
      rw [hsteps, ih List.not_mem_nil (records + 1)]
      constructor
      · rintro ⟨⟨hline, -⟩, lines, hcount, hlines, hcontent⟩
        refine ⟨part :: lines, by rw [List.length_cons]; omega,
          List.forall_mem_cons.mpr ⟨⟨hpart, hline⟩, hlines⟩, hcontent.imp ?_ ?_⟩ <;>
        · intro hcontent
          rw [List.flatMap_cons, ← hcontent]
          simp
      · rintro ⟨lines, hcount, hlines, hcontent⟩
        have hfree := fun line hline => (hlines line hline).1
        obtain ⟨others, rfl, hrest⟩ : ∃ others, lines = part :: others ∧
            ([] ++ content = others.flatMap (· ++ [10]) ∨
              [] ++ content ++ [10] = others.flatMap (· ++ [10])) := by
          rcases hcontent with hcontent | hcontent
          · obtain ⟨others, hothers, hrest⟩ := eq_cons_of_flatMap hpart hfree hcontent
            exact ⟨others, hothers, .inl hrest⟩
          · rw [List.append_assoc, List.cons_append] at hcontent
            obtain ⟨others, hothers, hrest⟩ := eq_cons_of_flatMap hpart hfree hcontent
            exact ⟨others, hothers, .inr hrest⟩
        rw [List.length_cons] at hcount
        obtain ⟨hfirst, hothers⟩ := List.forall_mem_cons.mp hlines
        exact ⟨⟨hfirst.2, by omega⟩, others, by omega, hothers, hrest⟩
    · have hmore : 10 ∉ part ++ [b] := by
        simpa [not_or, hpart] using fun h : 10 = b => hnewline h.symm
      simp only [writeLines, if_neg hnewline]
      rw [ih hmore records, List.append_assoc, List.singleton_append]

/-- The media type of the metadata is that of a single object. -/
theorem mediaType_eq_json_iff {kind : ProjectArchiveEntryKind} :
    kind.mediaType = "application/json" ↔ kind = .projectMetadata := by
  cases kind <;> decide

/-- All bytes of an entry are written and finished if they are the records that it declares. -/
theorem areRecords_iff {content : List UInt8} :
    (∃ state, write entry maxRecordBytes (.fresh 0) content = .ok state ∧
      finish entry state = .ok ()) ↔ AreRecords entry maxRecordBytes content := by
  unfold write AreRecords
  by_cases hkind : entry.kind = .projectMetadata
  · have hjson := mediaType_eq_json_iff.mpr hkind
    rw [if_pos hkind]
    simp only [if_pos hjson]
    rw [finish_append_iff (.inl hjson), Nat.zero_add, eq_comm (a := 1)]
  · have hlines : entry.kind.mediaType ≠ "application/json" := fun h =>
      hkind (mediaType_eq_json_iff.mp h)
    rw [if_neg hkind]
    simp only [if_neg hlines]
    rw [writeLines_iff hlines List.not_mem_nil content 0]
    simp only [Nat.zero_add, List.nil_append]
    rfl

end

end T3x.Backup
